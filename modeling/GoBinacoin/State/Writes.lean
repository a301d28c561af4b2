import GoBinacoin.State.Revert

/-! What operations write: the values of accounts, and which of them an operation changes. -/

namespace GoBinacoin.State

open StateDB

variable {B : Backend}

def StateDB.balanceOf (s : StateDB B) (addr : Address) : Int :=
  (s.live addr).elim 0 fun o => o.data.balance

def StateDB.nonceOf (s : StateDB B) (addr : Address) : UInt64 :=
  (s.live addr).elim 0 fun o => o.data.nonce

def StateDB.codeOf (s : StateDB B) (addr : Address) : Option Bytes :=
  (s.live addr).elim none fun o => o.codeValue s.db

def StateDB.suicidedOf (s : StateDB B) (addr : Address) : Bool :=
  (s.live addr).elim false fun o => o.suicided

/-- The value `GetState` reads, from the overrides if there are some. -/
def Object.slotValue (reads : Reads B) (o : Object B) (key : Hash) : Hash :=
  o.fakeStorage.elim (o.stateValue reads key) fun fake => (fake key).getD 0

def StateDB.slotOf (s : StateDB B) (addr : Address) (key : Hash) : Hash :=
  (s.live addr).elim 0 fun o => o.slotValue s.reads key

variable (s : StateDB B) (addr : Address)

theorem StateDB.getBalance_value : (s.getBalance addr).1 = s.balanceOf addr :=
  (s.readObject_eq addr 0 fun o => .refl s.reads o).1

theorem StateDB.getNonce_value : (s.getNonce addr).1 = s.nonceOf addr :=
  (s.readObject_eq addr 0 fun o => .refl s.reads o).1

theorem Object.getState_value (reads : Reads B) (o : Object B) (key : Hash)
    : (o.getState reads key).1 = o.slotValue reads key := by
  cases fake : o.fakeStorage with
  | none => simp [slotValue, fake, (o.getState_eq reads fake key).1]
  | some storage => simp [slotValue, fake, getState]

theorem StateDB.getState_value (key : Hash) : (s.getState addr key).1 = s.slotOf addr key := by
  refine (s.readObject_eq addr 0 fun o => o.getState_same s.reads key).1.trans ?_
  simp only [Object.getState_value]
  rfl

/-! Live objects. -/

variable {s s' middle next : StateDB B} {addr : Address} {o : Object B} {slot : Hash}

theorem StateDB.live_of_peek (found : s.peek addr = some o) (alive : o.deleted = false)
    : s.live addr = some o := by
  simp [live, found, Option.filter, alive]

theorem StateDB.live_congr (peek : s'.peek addr = s.peek addr) : s'.live addr = s.live addr := by
  simp only [live, peek]

theorem StateDB.live_keyed (found : s.live addr = some o) : o.address = addr :=
  peek_keyed (Option.filter_eq_some_iff.mp found).1

theorem StateDB.live_alive (found : s.live addr = some o) : o.deleted = false := by
  simpa using (Option.filter_eq_some_iff.mp found).2

/-- `next` differs from `s` in objects, the journal and destructed accounts. -/
def OnObjects (s next : StateDB B) : Prop :=
  ∃ stateObjects dbErr journal destructs,
    next = { s with
      stateObjects := stateObjects, dbErr := dbErr, journal := journal,
      snapDestructs := destructs }

theorem OnObjects.trans (first : OnObjects s middle) (second : OnObjects middle next)
    : OnObjects s next := by
  obtain ⟨_, _, _, _, rfl⟩ := first
  obtain ⟨_, _, _, _, rfl⟩ := second
  exact ⟨_, _, _, _, rfl⟩

theorem OnObjects.stored (rest : OnObjects s next) (addr : Address)
    : next.stored addr = s.stored addr := by
  obtain ⟨_, _, _, _, rfl⟩ := rest
  rfl

theorem StateDB.Loaded.onObjects (loaded : Loaded s next) : OnObjects s next := by
  obtain ⟨_, _, rfl⟩ := loaded.state
  exact ⟨_, _, _, _, rfl⟩

theorem StateDB.Loaded.destructs (loaded : Loaded s next)
    : next.snapDestructs = s.snapDestructs := by
  obtain ⟨_, _, rfl⟩ := loaded.state
  rfl

/-- A new object took the place of an account. It hides what was stored: there was nothing, or
the account is destructed, or it is read from its own trie.
-/
structure Created (s : StateDB B) (addr : Address) (next : StateDB B) : Prop where
  rest : OnObjects s next
  elsewhere : ∀ other, other ≠ addr → next.peek other = s.peek other
  here : next.peek addr = some (newObject B addr B.blankAccount)
  destructs : ∀ hash, hash ≠ B.hashAddress addr → next.snapDestructs hash = s.snapDestructs hash
  hidden
    : s.stored addr = none ∨ s.snap = none
      ∨ (next.snapDestructs (B.hashAddress addr)).isSome = true

theorem StateDB.peek_setStateObject_self (s : StateDB B) (address : o.address = addr)
    : (s.setStateObject o).peek addr = some o :=
  (s.peek_setStateObject o addr).trans (if_pos address.symm)

variable {other address : Address} {op : Op}

theorem StateDB.peek_setStateObject_of_ne (s : StateDB B)
    (address : o.address = addr) (ne : other ≠ addr)
    : (s.setStateObject o).peek other = s.peek other :=
  (s.peek_setStateObject o other).trans (if_neg (address ▸ ne))

/-- Overwriting an object with a blank one creates it. -/
theorem Created.of_overwrite {prev : Object B} (keyed : prev.address = addr)
    : Created s addr (s.overwrite prev (newObject B addr B.blankAccount)) := by
  unfold overwrite Object.addrHash
  rw [keyed]
  generalize marked : (s.snap.isSome && (s.snapDestructs (B.hashAddress addr)).isSome) = before
  simp only
  split
  · refine ⟨⟨_, _, _, _, rfl⟩, fun other ne => ?_, ?_, fun hash ne => ?_, .inr (.inr ?_)⟩
    · exact peek_setStateObject_of_ne _ rfl ne
    · exact peek_setStateObject_self _ rfl
    · exact GoMap.set_of_ne _ _ ne
    · exact congrArg Option.isSome (GoMap.set_self _ _ _)
  · rename_i unmarked
    refine ⟨⟨_, _, _, _, rfl⟩, fun other ne => ?_, ?_, fun _ _ => rfl, .inr ?_⟩
    · exact peek_setStateObject_of_ne _ rfl ne
    · exact peek_setStateObject_self _ rfl
    · rcases snap : s.snap with _ | layer
      · exact .inl rfl
      · refine .inr ?_
        simp_all [setStateObject, append]

/-- Loading the object before makes no difference. -/
theorem Created.of_loaded (loaded : Loaded s middle) (created : Created middle addr next)
    : Created s addr next where
  rest := loaded.onObjects.trans created.rest
  elsewhere other ne := (created.elsewhere other ne).trans (loaded.peek other)
  here := created.here
  destructs hash ne := (created.destructs hash ne).trans (congrFun loaded.destructs hash)
  hidden := by
    have snap : middle.snap = s.snap := by
      obtain ⟨_, _, rfl⟩ := loaded.state
      rfl
    rw [← loaded.onObjects.stored, ← snap]
    exact created.hidden

/-- The new object is blank, and the one before is returned. -/
theorem StateDB.createObject_created (s : StateDB B) (addr : Address)
    : (s.createObject addr).1 = newObject B addr B.blankAccount
      ∧ (s.createObject addr).2.1 = s.live addr
      ∧ Created s addr (s.createObject addr).2.2 := by
  obtain ⟨value, loaded, -⟩ := s.getDeletedStateObject_eq addr
  unfold createObject live
  rw [← value]
  generalize s.getDeletedStateObject addr = result at value loaded ⊢
  obtain ⟨found, middle⟩ := result
  rcases found with _ | prev
  · have absent : s.stored addr = none := (Option.or_eq_none_iff.mp value.symm).2
    refine ⟨rfl, rfl, .of_loaded loaded ⟨⟨_, _, _, _, rfl⟩, ?_, ?_, fun _ _ => rfl, ?_⟩⟩
    · exact fun other ne => peek_setStateObject_of_ne _ rfl ne
    · exact peek_setStateObject_self _ rfl
    · exact .inl ((loaded.onObjects.stored addr).trans absent)
  · refine ⟨rfl, ?_, .of_loaded loaded (.of_overwrite (peek_keyed value.symm))⟩
    cases deleted : prev.deleted <;> simp [Option.filter, deleted]

/-- The object an operation works on, and the state it was found or created in. -/
structure Obtained (s : StateDB B) (addr : Address) (o : Object B) (next : StateDB B) : Prop where
  rest : OnObjects s next
  elsewhere : ∀ other, other ≠ addr → next.peek other = s.peek other
  here : next.peek addr = some o
  address : o.address = addr
  alive : o.deleted = false
  origin
    : s.live addr = some o ∧ next.snapDestructs = s.snapDestructs
      ∨ s.live addr = none ∧ o = newObject B addr B.blankAccount ∧ Created s addr next

/-- The object is the one there was, or a blank one. -/
theorem StateDB.getOrNewStateObject_obtained (s : StateDB B) (addr : Address)
    : Obtained s addr (s.getOrNewStateObject addr).1 (s.getOrNewStateObject addr).2 := by
  obtain ⟨value, loaded, -⟩ := s.getStateObject_eq addr
  unfold getOrNewStateObject
  generalize s.getStateObject addr = result at value loaded ⊢
  obtain ⟨found, middle⟩ := result
  rcases found with _ | o
  · obtain ⟨fresh, -, created⟩ := middle.createObject_created addr
    have created := Created.of_loaded loaded created
    refine ⟨created.rest, created.elsewhere, ?_, ?_, ?_, .inr ⟨value.symm, fresh, created⟩⟩
    · exact created.here.trans (congrArg some fresh.symm)
    · exact congrArg Object.address fresh
    · exact congrArg Object.deleted fresh
  · have present := (Option.filter_eq_some_iff.mp value.symm).1
    exact ⟨loaded.onObjects, fun other _ => loaded.peek other, (loaded.peek addr).trans present,
      live_keyed value.symm, live_alive value.symm,
      .inl ⟨value.symm, loaded.destructs⟩⟩

/-! Operations that keep every value. -/

/-- Every getter of accounts agrees on the two states, with refund and logs. -/
structure StateDB.Alike (s s' : StateDB B) : Prop where
  reads : s'.reads = s.reads
  trie : s'.trie = s.trie
  objects
    : ∀ addr,
        Option.Rel (fun o o' => Object.Same s.reads o o' ∧ o'.fakeStorage = o.fakeStorage)
          (s.peek addr) (s'.peek addr)
  refund : s'.refund = s.refund
  logs : s'.logs = s.logs
  logSize : s'.logSize = s.logSize

theorem StateDB.Alike.of_peek (reads : s'.reads = s.reads)
    (trie : s'.trie = s.trie) (peek : ∀ addr, s'.peek addr = s.peek addr)
    (refund : s'.refund = s.refund) (logs : s'.logs = s.logs) (logSize : s'.logSize = s.logSize)
    : Alike s s' := by
  refine ⟨reads, trie, fun addr => ?_, refund, logs, logSize⟩
  rw [peek]
  cases s.peek addr with
  | none => exact .none
  | some o => exact .some ⟨.refl _ o, rfl⟩

theorem StateDB.Alike.refl (s : StateDB B) : Alike s s :=
  .of_peek rfl rfl (fun _ => rfl) rfl rfl rfl

/-- Alike states, in two steps. -/
theorem StateDB.Alike.trans (first : Alike s middle) (second : Alike middle next)
    : Alike s next where
  reads := second.reads.trans first.reads
  trie := second.trie.trans first.trie
  objects addr := by
    have one := first.objects addr
    have two := second.objects addr
    rw [first.reads] at two
    generalize s.peek addr = o, middle.peek addr = o', next.peek addr = o'' at one two
    cases one with
    | none =>
      cases two with
      | none => exact .none
    | some one =>
      cases two with
      | some two => exact .some ⟨one.1.trans two.1, two.2.trans one.2⟩
  refund := second.refund.trans first.refund
  logs := second.logs.trans first.logs
  logSize := second.logSize.trans first.logSize

/-- A query changes only what is cached. -/
theorem StateDB.readObject_alike {α : Type} (s : StateDB B) (addr : Address) (absent : α)
    {read : Object B → α × Object B} (keeps : ∀ o, Object.Same s.reads o (read o).2)
    (fake : ∀ o, (read o).2.fakeStorage = o.fakeStorage)
    : Alike s (s.readObject addr absent read).2 := by
  obtain ⟨value, loaded, -⟩ := s.getStateObject_eq addr
  have first : Alike s (s.getStateObject addr).2 := by
    have peek := loaded.peek
    obtain ⟨_, _, same⟩ := loaded.state
    rw [same] at peek ⊢
    exact .of_peek rfl rfl peek rfl rfl rfl
  unfold readObject
  generalize s.getStateObject addr = result at value loaded first ⊢
  obtain ⟨found, next⟩ := result
  rcases found with _ | o
  · exact first
  have keyed := live_keyed value.symm
  have same := keeps o
  have present : next.peek addr = some o :=
    (loaded.peek addr).trans (Option.filter_eq_some_iff.mp value.symm).1
  rw [← first.reads] at same
  refine first.trans ⟨rfl, rfl, fun other => ?_, rfl, rfl, rfl⟩
  by_cases here : other = addr
  · subst here
    rw [peek_setStateObject_self _ (same.address.trans keyed), present]
    exact .some ⟨same, fake o⟩
  · rw [peek_setStateObject_of_ne _ (same.address.trans keyed) here]
    cases next.peek other with
    | none => exact .none
    | some o => exact .some ⟨.refl _ o, rfl⟩

theorem Object.Recached.fake {reads : Reads B} {next : Object B} (recached : Recached reads o next)
    : next.fakeStorage = o.fakeStorage := by
  obtain ⟨_, _, _, _, rfl⟩ := recached.object
  rfl

theorem Object.getCommittedState_fake (reads : Reads B) (o : Object B) (key : Hash)
    : (o.getCommittedState reads key).2.fakeStorage = o.fakeStorage := by
  rcases fake : o.fakeStorage with _ | storage
  · exact (o.getCommittedState_eq reads fake key).2.fake.trans fake
  · simp only [getCommittedState, fake]

theorem Object.getState_fake (reads : Reads B) (o : Object B) (key : Hash)
    : (o.getState reads key).2.fakeStorage = o.fakeStorage := by
  rcases fake : o.fakeStorage with _ | storage
  · exact (o.getState_eq reads fake key).2.fake.trans fake
  · simp only [getState, fake]

/-- The size of the code has nothing to do with fake storage. -/
theorem Object.getCodeSize_fake (db : B.Db) (o : Object B)
    : (o.getCodeSize db).2.fakeStorage = o.fakeStorage := by
  unfold getCodeSize
  rcases o.code with _ | code
  · simp only
    split
    · rfl
    · cases (B.contractCodeSize db o.addrHash o.data.codeHash).2 with
      | none => rfl
      | some err => rfl
  · rfl

namespace StateDB

/-- Alike states have the same accounts. -/
theorem Alike.live (alike : Alike s s') (addr : Address)
    : Option.Rel (fun o o' => Object.Same s.reads o o' ∧ o'.fakeStorage = o.fakeStorage)
        (s.live addr) (s'.live addr) := by
  unfold StateDB.live
  generalize s.peek addr = found, s'.peek addr = found', alike.objects addr = related
  cases related with
  | none => exact .none
  | some one =>
    simp only [Option.filter, one.1.deleted]
    split
    · exact .some one
    · exact .none

/-- The values of accounts that reverting restores, whatever was overridden. -/
structure SameAccounts (s s' : StateDB B) : Prop where
  balance : ∀ addr, s'.balanceOf addr = s.balanceOf addr
  nonce : ∀ addr, s'.nonceOf addr = s.nonceOf addr
  code : ∀ addr, s'.codeOf addr = s.codeOf addr
  suicided : ∀ addr, s'.suicidedOf addr = s.suicidedOf addr

/-- The same objects have the same balances, nonces, codes and marks. -/
theorem SameAccounts.of_live (db : s'.db = s.db)
    (live : ∀ addr, Option.Rel (Object.Same s.reads) (s.live addr) (s'.live addr))
    : SameAccounts s s' := by
  have code (o : Object B) : o.codeValue s.db = o.codeValue s.reads.db := rfl
  refine ⟨fun addr => ?_, fun addr => ?_, fun addr => ?_, fun addr => ?_⟩
  all_goals
    simp only [balanceOf, nonceOf, codeOf, suicidedOf, db]
    generalize s.live addr = found, s'.live addr = found', live addr = related
    cases related with
    | none => rfl
    | some same => simp [code, same.data, same.code, same.suicided]

theorem Same.accounts (same : Same s s') : SameAccounts s s' :=
  .of_live (congrArg Reads.db same.reads) same.live

theorem Alike.accounts (alike : Alike s s') : SameAccounts s s' := by
  refine .of_live (congrArg Reads.db alike.reads) fun addr => ?_
  generalize s.live addr = found, s'.live addr = found', alike.live addr = related
  cases related with
  | none => exact .none
  | some one => exact .some one.1

theorem exist_value (s : StateDB B) (addr : Address) : (s.exist addr).1 = (s.live addr).isSome := by
  refine (s.readObject_eq addr false fun o => .refl s.reads o).1.trans ?_
  cases s.live addr <;> rfl

theorem Alike.exist (alike : Alike s s') (addr : Address)
    : (s'.exist addr).1 = (s.exist addr).1 := by
  rw [exist_value, exist_value]
  generalize s.live addr = found, s'.live addr = found', alike.live addr = related
  cases related with
  | none => rfl
  | some _ => rfl

/-- Alike states have the same slots. -/
theorem Alike.slotOf (alike : Alike s s') (addr : Address) (key : Hash)
    : s'.slotOf addr key = s.slotOf addr key := by
  simp only [StateDB.slotOf, alike.reads]
  generalize s.live addr = found, s'.live addr = found', alike.live addr = related
  cases related with
  | none => rfl
  | @some o o' one =>
    simp only [Option.elim_some, Object.slotValue, one.2]
    cases fake : o.fakeStorage with
    | none => exact one.1.state fake key
    | some storage => rfl

/-! Balances. -/

/-- An object that is set is the account. -/
theorem live_setStateObject (s : StateDB B)
    (address : o.address = addr) (alive : o.deleted = false) (other : Address)
    : (s.setStateObject o).live other = if other = addr then some o else s.live other := by
  split
  · rename_i here
    rw [here]
    exact live_of_peek (s.peek_setStateObject_self address) alive
  · rename_i ne
    exact live_congr (s.peek_setStateObject_of_ne address ne)

theorem balanceOf_setStateObject (s : StateDB B)
    (address : o.address = addr) (alive : o.deleted = false) (other : Address)
    : (s.setStateObject o).balanceOf other
      = if other = addr then o.data.balance else s.balanceOf other := by
  simp only [balanceOf, s.live_setStateObject address alive]
  split <;> rfl

theorem balanceOf_congr (peek : s'.peek addr = s.peek addr)
    : s'.balanceOf addr = s.balanceOf addr := by
  simp only [balanceOf, live_congr peek]

end StateDB

section Obtained

section

variable (obtained : Obtained s addr o middle)

include obtained

theorem Obtained.live : middle.live addr = some o := live_of_peek obtained.here obtained.alive

theorem Obtained.value {α : Type} (read : Object B → α) {absent : α}
    (blank : read (newObject B addr B.blankAccount) = absent) (other : Address)
    : (middle.live other).elim absent read = (s.live other).elim absent read := by
  by_cases here : other = addr
  · rw [here, obtained.live]
    rcases obtained.origin with ⟨live, -⟩ | ⟨live, fresh, -⟩
    · rw [live]
    · rw [live, fresh]
      exact blank
  · rw [live_congr (obtained.elsewhere other here)]

theorem Obtained.balance : o.data.balance = s.balanceOf addr := by
  rcases obtained.origin with ⟨live, -⟩ | ⟨live, fresh, -⟩
  · simp [balanceOf, live]
  · simp [balanceOf, live, fresh, newObject, Backend.blankAccount]

theorem Obtained.balanceOf (other : Address) : middle.balanceOf other = s.balanceOf other :=
  obtained.value (fun o => o.data.balance) rfl other

variable {next : StateDB B} {changed : Object B} {other : Address}

/-- Changing the object that was obtained changes one balance at most. -/
theorem Obtained.balanceOf_put (f : Int → Int) (peek : ∀ other, next.peek other = middle.peek other)
    (address : changed.address = o.address) (alive : changed.deleted = o.deleted)
    (balance : changed.data.balance = f o.data.balance)
    : (next.setStateObject changed).balanceOf other
      = if other = addr then f (s.balanceOf other) else s.balanceOf other := by
  rw [balanceOf_setStateObject _ (address.trans obtained.address)
    (alive.trans obtained.alive), balanceOf_congr (peek other), obtained.balanceOf, balance,
    obtained.balance]
  split
  · rename_i here
    rw [here]
  · rfl

theorem Obtained.balanceOf_keep (peek : ∀ other, next.peek other = middle.peek other)
    (address : changed.address = o.address) (alive : changed.deleted = o.deleted)
    (balance : changed.data.balance = o.data.balance)
    : (next.setStateObject changed).balanceOf other = s.balanceOf other :=
  (obtained.balanceOf_put id peek address alive balance).trans (ite_self _)

theorem Obtained.nonceOf (other : Address) : middle.nonceOf other = s.nonceOf other :=
  obtained.value (fun o => o.data.nonce) rfl other

end

end Obtained

section Balances

variable (s : StateDB B) (addr : Address)

namespace StateDB

theorem balanceOf_touch (o : Object B) (other : Address)
    : (s.touch o).balanceOf other = s.balanceOf other := by
  unfold touch
  simp only
  split
  · rfl
  · rfl

variable (amount : Int) (other : Address)

/-- Only the balance of the account grows. -/
theorem balanceOf_addBalance
    : (s.addBalance addr amount).balanceOf other
      = if other = addr then s.balanceOf other + amount else s.balanceOf other := by
  have obtained := s.getOrNewStateObject_obtained addr
  unfold addBalance
  simp only
  split
  · rename_i zero
    have kept : (s.getOrNewStateObject addr).2.balanceOf other
        = if other = addr then s.balanceOf other + amount else s.balanceOf other := by
      rw [obtained.balanceOf, zero, add_zero, ite_self]
    split
    · exact (balanceOf_touch _ _ other).trans kept
    · exact kept
  · exact obtained.balanceOf_put (· + amount) (by exact fun _ => rfl) (by rfl) (by rfl) (by rfl)

/-- Only the balance of the account falls. -/
theorem balanceOf_subBalance
    : (s.subBalance addr amount).balanceOf other
      = if other = addr then s.balanceOf other - amount else s.balanceOf other := by
  have obtained := s.getOrNewStateObject_obtained addr
  unfold subBalance
  simp only
  split
  · rename_i zero
    rw [obtained.balanceOf, zero, sub_zero, ite_self]
  · exact obtained.balanceOf_put (· - amount) (by exact fun _ => rfl) (by rfl) (by rfl) (by rfl)

/-- Paying leaves every nonce alone. -/
theorem nonceOf_subBalance : (s.subBalance addr amount).nonceOf other = s.nonceOf other := by
  have obtained := s.getOrNewStateObject_obtained addr
  rw [← obtained.nonceOf other]
  unfold subBalance
  simp only
  split
  · rfl
  · unfold setObjectBalance nonceOf
    rw [live_setStateObject _ (by exact obtained.address) (by exact obtained.alive)]
    split
    · rename_i here
      rw [here, obtained.live]
      rfl
    · rfl

theorem balanceOf_setNonce (nonce : UInt64) (other : Address)
    : (s.setNonce addr nonce).balanceOf other = s.balanceOf other :=
  (s.getOrNewStateObject_obtained addr).balanceOf_keep (by exact fun _ => rfl) (by rfl) (by rfl)
    (by rfl)

theorem balanceOf_setCode (code : Option Bytes) (other : Address)
    : (s.setCode addr code).balanceOf other = s.balanceOf other := by
  have obtained := s.getOrNewStateObject_obtained addr
  have read :=
    ((s.getOrNewStateObject addr).1.getCode_eq (s.getOrNewStateObject addr).2.reads).2.same
  have balance := congrArg Account.balance read.data
  exact obtained.balanceOf_keep (by exact fun _ => rfl) (by exact read.address)
    (by exact read.deleted) (by exact balance)

/-- Storing leaves every balance alone. -/
theorem balanceOf_setState (key value : Hash) (other : Address)
    : (s.setState addr key value).balanceOf other = s.balanceOf other := by
  have obtained := s.getOrNewStateObject_obtained addr
  have read := (s.getOrNewStateObject addr).1.getState_same (s.getOrNewStateObject addr).2.reads key
  have balance := congrArg Account.balance read.data
  unfold setState
  simp only
  split
  · exact obtained.balanceOf_keep (by exact fun _ => rfl) (by rfl) (by rfl) (by rfl)
  · split
    · exact obtained.balanceOf_keep (by exact fun _ => rfl) (by exact read.address)
        (by exact read.deleted) (by exact balance)
    · exact obtained.balanceOf_keep (by exact fun _ => rfl) (by exact read.address)
        (by exact read.deleted) (by exact balance)

end StateDB

theorem Created.balanceOf_of_ne (created : Created s addr next) (ne : other ≠ addr)
    : next.balanceOf other = s.balanceOf other :=
  balanceOf_congr (created.elsewhere other ne)

/-- The balance of an account that is created anew is carried over. -/
theorem StateDB.balanceOf_createAccount (other : Address)
    : (s.createAccount addr).balanceOf other = s.balanceOf other := by
  obtain ⟨fresh, before, created⟩ := s.createObject_created addr
  unfold createAccount
  generalize s.createObject addr = result at fresh before created ⊢
  obtain ⟨newobj, found, next⟩ := result
  have live : s.live addr = found := before.symm
  have address : newobj.address = addr := congrArg Object.address fresh
  have alive : newobj.deleted = false := congrArg Object.deleted fresh
  rcases found with _ | prev
  · by_cases here : other = addr
    · have now := live_of_peek created.here rfl
      rw [here, balanceOf, balanceOf, live, now]
      rfl
    · exact Created.balanceOf_of_ne s addr created here
  · show (next.setStateObject (newobj.setBalance prev.data.balance)).balanceOf other = _
    have changed := next.balanceOf_setStateObject
      (o := newobj.setBalance prev.data.balance) address alive other
    rw [changed]
    split
    · rename_i here
      rw [here, balanceOf, live]
      rfl
    · rename_i ne
      exact Created.balanceOf_of_ne s addr created ne

/-- A destructed account has no balance, and all others keep theirs. -/
theorem StateDB.balanceOf_suicide (other : Address)
    : (s.suicide addr).2.balanceOf other = if other = addr then 0 else s.balanceOf other := by
  obtain ⟨value, loaded, -⟩ := s.getStateObject_eq addr
  unfold suicide
  generalize s.getStateObject addr = result at value loaded ⊢
  obtain ⟨found, next⟩ := result
  have kept : next.balanceOf other = s.balanceOf other := balanceOf_congr (loaded.peek other)
  rcases found with _ | o
  · refine kept.trans ?_
    split
    · rename_i here
      rw [here, balanceOf, ← value]
      rfl
    · rfl
  · have keyed : o.address = addr := live_keyed value.symm
    have alive : o.deleted = false := live_alive value.symm
    refine (balanceOf_setStateObject _ (by exact keyed) (by exact alive) other).trans ?_
    split
    · rfl
    · exact kept

end Balances

/-- Operations that change or read an object, and nothing else. -/
def Op.onObjects : Op → Bool
  | .addLog _ => false
  | .addPreimage _ _ => false
  | .addRefund _ => false
  | .subRefund _ => false
  | .addAddressToAccessList _ => false
  | .addSlotToAccessList _ _ => false
  | .snapshot => false
  | .revertToSnapshot _ => false
  | _ => true

theorem OnObjects.setStateObject (rest : OnObjects s next) (o : Object B)
    : OnObjects s (next.setStateObject o) :=
  rest.trans ⟨_, _, _, _, rfl⟩

theorem OnObjects.append (rest : OnObjects s next) (entry : JournalEntry B)
    : OnObjects s (next.append entry) :=
  rest.trans ⟨_, _, _, _, rfl⟩

namespace StateDB

theorem readObject_onObjects {α : Type} (s : StateDB B) (addr : Address) (absent : α)
    (read : Object B → α × Object B)
    : OnObjects s (s.readObject addr absent read).2 := by
  have rest := (s.getStateObject_eq addr).2.1.onObjects
  unfold readObject
  generalize s.getStateObject addr = result at rest ⊢
  obtain ⟨found, next⟩ := result
  cases found with
  | none => exact rest
  | some o => exact rest.setStateObject _

theorem touch_onObjects (s : StateDB B) (o : Object B) : OnObjects s (s.touch o) := by
  unfold touch
  simp only
  split
  · exact ⟨_, _, _, _, rfl⟩
  · exact ⟨_, _, _, _, rfl⟩

variable (s addr)

/-- Adding a balance acts on objects only. -/
theorem addBalance_onObjects (amount : Int) : OnObjects s (s.addBalance addr amount) := by
  have rest := (s.getOrNewStateObject_obtained addr).rest
  unfold addBalance
  simp only
  split
  · split
    · exact rest.trans (touch_onObjects _ _)
    · exact rest
  · exact (rest.append _).setStateObject _

theorem subBalance_onObjects (amount : Int) : OnObjects s (s.subBalance addr amount) := by
  have rest := (s.getOrNewStateObject_obtained addr).rest
  unfold subBalance
  simp only
  split
  · exact rest
  · exact (rest.append _).setStateObject _

/-- So does storing. -/
theorem setState_onObjects (key value : Hash) : OnObjects s (s.setState addr key value) := by
  have rest := (s.getOrNewStateObject_obtained addr).rest
  unfold setState
  simp only
  split
  · exact rest.setStateObject _
  · split
    · exact rest.setStateObject _
    · exact (rest.append _).setStateObject _

theorem suicide_onObjects : OnObjects s (s.suicide addr).2 := by
  have rest := (s.getStateObject_eq addr).2.1.onObjects
  unfold suicide
  generalize s.getStateObject addr = result at rest ⊢
  obtain ⟨found, next⟩ := result
  cases found with
  | none => exact rest
  | some o => exact (rest.append _).setStateObject _

theorem createAccount_onObjects : OnObjects s (s.createAccount addr) := by
  have rest := (s.createObject_created addr).2.2.rest
  unfold createAccount
  generalize s.createObject addr = result at rest ⊢
  obtain ⟨newobj, found, next⟩ := result
  cases found with
  | none => exact rest
  | some prev => exact rest.setStateObject _

end StateDB

/-- So does every operation of that kind. -/
theorem Op.run_onObjects (kind : op.onObjects = true) (run : op.run s = some next)
    : OnObjects s next := by
  have obtained (addr : Address) := (s.getOrNewStateObject_obtained addr).rest
  cases op with
  | addBalance addr amount => exact Option.some.inj run ▸ s.addBalance_onObjects addr amount
  | subBalance addr amount => exact Option.some.inj run ▸ s.subBalance_onObjects addr amount
  | setBalance addr amount =>
    exact Option.some.inj run ▸ ((obtained addr).append _).setStateObject _
  | setNonce addr nonce => exact Option.some.inj run ▸ ((obtained addr).append _).setStateObject _
  | setCode addr code => exact Option.some.inj run ▸ ((obtained addr).append _).setStateObject _
  | setState addr key value => exact Option.some.inj run ▸ s.setState_onObjects addr key value
  | suicide addr => exact Option.some.inj run ▸ s.suicide_onObjects addr
  | createAccount addr => exact Option.some.inj run ▸ s.createAccount_onObjects addr
  | exist | empty | getBalance | getNonce | getCode | getCodeSize | getCodeHash | getState
  | getCommittedState | hasSuicided => exact Option.some.inj run ▸ s.readObject_onObjects _ _ _
  | _ => cases kind

theorem OnObjects.accessList (rest : OnObjects s next) : next.accessList = s.accessList := by
  obtain ⟨_, _, _, _, rfl⟩ := rest
  rfl

theorem containsAddress_set {al : AccessList} {idx : Int}
    {slots : List (Finset Hash)} (listed : al.containsAddress other = true)
    : AccessList.containsAddress { addresses := al.addresses.set address idx, slots := slots } other
      = true := by
  show ((al.addresses.set address idx) other).isSome = true
  rw [GoMap.set_apply]
  split
  · rfl
  · exact listed

/-- An address that is added is listed, and no other is lost. -/
theorem AccessList.addAddress_listed (al : AccessList) (address : Address)
    : (al.addAddress address).2.containsAddress address = true
      ∧ ∀ other, al.containsAddress other = true
        → (al.addAddress address).2.containsAddress other = true := by
  unfold addAddress
  split
  · rename_i present
    exact ⟨congrArg Option.isSome present, fun _ => id⟩
  · refine ⟨?_, fun other listed => containsAddress_set listed⟩
    exact congrArg Option.isSome (GoMap.set_self _ _ _)

/-- Adding a slot keeps the addresses. -/
theorem AccessList.addSlot_listed {al next : AccessList}
    {addrMod slotMod : Bool} (run : al.addSlot address slot = some (addrMod, slotMod, next))
    (listed : al.containsAddress other = true)
    : next.containsAddress other = true := by
  unfold addSlot at run
  split at run
  · obtain ⟨-, -, rfl⟩ := Option.some.inj run
    exact containsAddress_set listed
  · split at run
    · obtain ⟨-, -, rfl⟩ := Option.some.inj run
      exact containsAddress_set listed
    · obtain ⟨slotmap, -, same⟩ := Option.map_eq_some_iff.mp run
      split at same
      · obtain ⟨-, -, rfl⟩ := same
        exact listed
      · obtain ⟨-, -, rfl⟩ := same
        exact listed

/-- Asking for a slot also tells of its address. -/
theorem StateDB.slotInAccessList_address
    {present : Bool × Bool} (found : s.slotInAccessList addr slot = some present)
    : present.1 = s.addressInAccessList addr := by
  unfold slotInAccessList AccessList.contains at found
  unfold addressInAccessList AccessList.containsAddress
  split at found
  · rename_i none
    rw [none, ← Option.some.inj found]
    rfl
  · rename_i idx listed
    rw [listed]
    split at found
    · rw [← Option.some.inj found]
      rfl
    · obtain ⟨slotmap, -, rfl⟩ := Option.map_eq_some_iff.mp found
      rfl

/-- An address that is added is listed, and no other is lost. -/
theorem StateDB.addAddressToAccessList_listed (s : StateDB B) (addr : Address)
    : (s.addAddressToAccessList addr).addressInAccessList addr = true
      ∧ ∀ other, s.addressInAccessList other = true
        → (s.addAddressToAccessList addr).addressInAccessList other = true := by
  have kept := s.accessList.addAddress_listed addr
  unfold addAddressToAccessList
  split
  · rename_i al added
    rw [added] at kept
    exact kept
  · rename_i al added
    have same : al = s.accessList := by
      unfold AccessList.addAddress at added
      split at added
      · exact (Prod.mk.inj added).2.symm
      · cases added
    rw [added, same] at kept
    exact kept

theorem StateDB.addSlotToAccessList_listed (run : s.addSlotToAccessList addr slot = some next)
    (listed : s.addressInAccessList other = true)
    : next.addressInAccessList other = true := by
  unfold addSlotToAccessList at run
  split at run
  · cases run
  · rename_i addrMod slotMod al added
    have kept := AccessList.addSlot_listed added listed
    rw [← Option.some.inj run]
    cases addrMod <;> cases slotMod <;> exact kept

/-- No operation but reverting takes an address from the list. -/
theorem Op.run_listed (forward : ∀ revid, op ≠ .revertToSnapshot revid) (run : op.run s = some next)
    (listed : s.addressInAccessList addr = true)
    : next.addressInAccessList addr = true := by
  rcases kind : op.onObjects with _ | _
  · cases op with
    | addLog log => exact Option.some.inj run ▸ listed
    | addPreimage hash preimage =>
      rw [← Option.some.inj run]
      unfold StateDB.addPreimage
      split
      · exact listed
      · exact listed
    | addRefund gas => exact Option.some.inj run ▸ listed
    | subRefund gas =>
      have run : s.subRefund gas = some next := run
      unfold StateDB.subRefund at run
      split at run
      · cases run
      · exact Option.some.inj run ▸ listed
    | addAddressToAccessList other =>
      exact Option.some.inj run ▸ (s.addAddressToAccessList_listed other).2 addr listed
    | addSlotToAccessList other slot => exact StateDB.addSlotToAccessList_listed run listed
    | snapshot => exact Option.some.inj run ▸ listed
    | revertToSnapshot revid => exact absurd rfl (forward revid)
    | _ => cases kind
  · unfold StateDB.addressInAccessList
    rw [(run_onObjects kind run).accessList]
    exact listed

end GoBinacoin.State
