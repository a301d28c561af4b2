import GoBinacoin.State.Snapshot

/-! What can be observed of objects. The values behind the getters are functions of the
object; two objects are the same if these values agree, whatever the objects have cached.
-/

namespace GoBinacoin.State

variable {B : Backend}

/-- The storage trie of an object, opened or not. -/
def Object.trieValue (db : B.Db) (o : Object B) : B.Trie :=
  o.trie.getD (match B.openStorageTrie db (B.hashAddress o.address) o.data.root with
    | .ok trie => trie
    | .error _ => B.emptyTrie)

def fetchedTrie (B : Backend) (db : B.Db) (trie : B.Trie) (key : Hash) : Fetched B :=
  match B.tryGet db trie (hashBytes key) with
  | .error err => .failed err
  | .ok enc => .encoded enc

/-- What is read for a slot, given the storage trie. -/
def fetched (reads : Reads B) (addrHash : Hash) (trie : B.Trie) (key : Hash) : Fetched B :=
  match reads.snap with
  | none => fetchedTrie B reads.db trie key
  | some snap =>
      if (reads.snapDestructs addrHash).isSome then .destructed
      else
        match B.snapStorage snap addrHash (B.keccak (hashBytes key)) with
        | .error _ => fetchedTrie B reads.db trie key
        | .ok enc => .encoded enc

def Fetched.value : Fetched B → Hash
  | .destructed => 0
  | .failed _ => 0
  | .encoded enc => (decodeSlot enc).1

/-- The committed value of a slot of an object without fake storage. -/
def Object.committedValue (reads : Reads B) (o : Object B) (key : Hash) : Hash :=
  ((o.pendingStorage key).or (o.originStorage key)).getD
    (fetched reads (B.hashAddress o.address) (o.trieValue reads.db) key).value

/-- The value of a slot, dirty or committed. -/
def Object.stateValue (reads : Reads B) (o : Object B) (key : Hash) : Hash :=
  (o.dirtyStorage key).getD (o.committedValue reads key)

/-- The code the database holds for an account. -/
def Backend.storedCode (B : Backend) (db : B.Db) (addr : Address) (codeHash : Hash)
    : Option Bytes :=
  if codeHash = B.emptyCodeHash then none
  else (B.contractCode db (B.hashAddress addr) codeHash).1

def Object.codeValue (db : B.Db) (o : Object B) : Option Bytes :=
  o.code.or (B.storedCode db o.address o.data.codeHash)

/-- `next` is `o` after reading: other caches in front of the same values. -/
structure Object.Recached (reads : Reads B) (o next : Object B) : Prop where
  object
    : ∃ trie dbErr originStorage code,
        next = { o with
          trie := trie, dbErr := dbErr, originStorage := originStorage, code := code }
  committed : ∀ key, next.committedValue reads key = o.committedValue reads key
  code : next.codeValue reads.db = o.codeValue reads.db

variable {reads : Reads B} {o o' middle next : Object B}

theorem Object.Recached.trans
    (first : Recached reads o middle) (second : Recached reads middle next)
    : Recached reads o next := by
  obtain ⟨_, _, _, _, rfl⟩ := first.object
  obtain ⟨_, _, _, _, rfl⟩ := second.object
  exact ⟨⟨_, _, _, _, rfl⟩, fun key => (second.committed key).trans (first.committed key),
    second.code.trans first.code⟩

variable (reads o)

theorem Object.Recached.refl : Recached reads o o :=
  ⟨⟨o.trie, o.dbErr, o.originStorage, o.code, rfl⟩, fun _ => rfl, rfl⟩

theorem Object.setError_recached (err : ObjectError B) : Recached reads o (o.setError err) :=
  ⟨⟨_, _, _, _, rfl⟩, fun _ => rfl, rfl⟩

theorem Object.elim_setError_recached {ε : Type} (err : Option ε) (wrap : ε → ObjectError B)
    : Recached reads o (err.elim o fun e => o.setError (wrap e)) := by
  cases err with
  | none => exact .refl reads o
  | some e => exact o.setError_recached reads (wrap e)

theorem Object.recached_of_trie : Recached reads o { o with trie := some (o.trieValue reads.db) } :=
  ⟨⟨_, _, _, _, rfl⟩, fun _ => rfl, rfl⟩

/-- Opening the trie of an object changes only what is cached. -/
theorem Object.getTrie_eq
    : (o.getTrie reads.db).1 = o.trieValue reads.db
      ∧ Recached reads o (o.getTrie reads.db).2 := by
  have opened := o.recached_of_trie reads
  unfold getTrie addrHash
  rcases cached : o.trie with _ | trie
  · rcases result : B.openStorageTrie reads.db (B.hashAddress o.address) o.data.root with err | trie
    · have value : o.trieValue reads.db = B.emptyTrie := by
        simp [trieValue, cached, result]
      rw [value] at opened
      exact ⟨value.symm, opened.trans (setError_recached reads _ (.storageTrie err))⟩
    · have value : o.trieValue reads.db = trie := by simp [trieValue, cached, result]
      exact ⟨value.symm, value ▸ opened⟩
  · exact ⟨by simp [trieValue, cached], .refl reads o⟩

theorem Object.fetchTrie_eq (key : Hash)
    : (o.fetchTrie reads.db key).1 = fetchedTrie B reads.db (o.trieValue reads.db) key
      ∧ (o.fetchTrie reads.db key).2 = (o.getTrie reads.db).2 := by
  simp only [fetchTrie, fetchedTrie, (o.getTrie_eq reads).1]
  cases B.tryGet reads.db (o.trieValue reads.db) (hashBytes key) <;> simp

/-- Fetching a slot changes only what is cached. -/
theorem Object.fetch_eq (key : Hash)
    : (o.fetch reads key).1
        = fetched reads (B.hashAddress o.address) (o.trieValue reads.db) key
      ∧ Recached reads o (o.fetch reads key).2
      ∧ (o.fetch reads key).2.originStorage = o.originStorage := by
  have opened := (o.getTrie_eq reads).2
  have sameOrigin : (o.getTrie reads.db).2.originStorage = o.originStorage := by
    unfold getTrie
    split
    · rfl
    · split <;> rfl
  obtain ⟨value, object⟩ := o.fetchTrie_eq reads key
  unfold fetch fetched addrHash
  rcases reads.snap with _ | snap
  · exact ⟨value, object ▸ opened, object ▸ sameOrigin⟩
  simp only
  split
  · exact ⟨rfl, .refl reads o, rfl⟩
  · cases B.snapStorage snap (B.hashAddress o.address) (B.keccak (hashBytes key)) with
    | ok enc => exact ⟨rfl, .refl reads o, rfl⟩
    | error _ => exact ⟨value, object ▸ opened, object ▸ sameOrigin⟩

/-- Caching the value of a slot that had no cached one does not change any value. -/
theorem Object.recached_of_origin {key value : Hash}
    (uncached : (o.pendingStorage key).or (o.originStorage key) = none)
    (same : value = o.committedValue reads key)
    : Recached reads o { o with originStorage := o.originStorage.set key value } := by
  refine ⟨⟨_, _, _, _, rfl⟩, fun other => ?_, rfl⟩
  rcases eq_or_ne other key with atKey | elsewhere
  · subst atKey
    have notPending : o.pendingStorage other = none := by
      cases pending : o.pendingStorage other with
      | none => rfl
      | some found => simp [pending] at uncached
    rw [same]
    simp [committedValue, notPending]
  · simp only [committedValue, GoMap.set_of_ne _ _ elsewhere]
    rfl

/-- A read of a committed slot returns its value, and caches nothing but this value. -/
theorem Object.getCommittedState_eq (noFake : o.fakeStorage = none) (key : Hash)
    : (o.getCommittedState reads key).1 = o.committedValue reads key
      ∧ Recached reads o (o.getCommittedState reads key).2 := by
  simp only [getCommittedState, noFake]
  rcases cached : (o.pendingStorage key).or (o.originStorage key) with _ | found
  · obtain ⟨value, recached, sameOrigin⟩ := o.fetch_eq reads key
    have atKey : o.committedValue reads key = (o.fetch reads key).1.value := by
      simp [committedValue, cached, value]
    generalize o.fetch reads key = result at atKey recached sameOrigin ⊢
    obtain ⟨outcome, left⟩ := result
    rw [atKey]
    cases outcome with
    | destructed => exact ⟨rfl, recached⟩
    | failed err => exact ⟨rfl, recached.trans (left.setError_recached reads _)⟩
    | encoded enc =>
      have origin : ((decodeSlot enc).2.elim left fun e => left.setError (.slot e)).originStorage
          = o.originStorage := by
        cases (decodeSlot enc).2 <;> exact sameOrigin
      have reread := recached.trans (left.elim_setError_recached reads (decodeSlot enc).2 .slot)
      refine ⟨rfl, reread.trans (recached_of_origin reads _ ?_ ?_)⟩
      · obtain ⟨_, _, _, _, object⟩ := reread.object
        rw [origin, object]
        exact cached
      · rw [reread.committed key, atKey]
        rfl
  · exact ⟨by simp [committedValue, cached], .refl reads o⟩

theorem Object.getState_eq (noFake : o.fakeStorage = none) (key : Hash)
    : (o.getState reads key).1 = o.stateValue reads key
      ∧ Recached reads o (o.getState reads key).2 := by
  simp only [getState, noFake, stateValue]
  cases o.dirtyStorage key with
  | some value => exact ⟨rfl, .refl reads o⟩
  | none => exact o.getCommittedState_eq reads noFake key

theorem Object.recached_of_code : Recached reads o { o with code := o.codeValue reads.db } := by
  refine ⟨⟨_, _, _, _, rfl⟩, fun _ => rfl, ?_⟩
  simp only [codeValue, Option.or_assoc, Option.or_self]

/-- Loading the code changes only what is cached. -/
theorem Object.getCode_eq
    : (o.getCode reads.db).1 = o.codeValue reads.db
      ∧ Recached reads o (o.getCode reads.db).2 := by
  unfold getCode addrHash
  rcases cached : o.code with _ | code
  · simp only
    split
    · rename_i empty
      exact ⟨by simp [codeValue, Backend.storedCode, cached, empty], .refl reads o⟩
    · rename_i nonempty
      have value : o.codeValue reads.db
          = (B.contractCode reads.db (B.hashAddress o.address) o.data.codeHash).1 := by
        simp [codeValue, Backend.storedCode, cached, nonempty]
      have remembered := o.elim_setError_recached reads
        (B.contractCode reads.db (B.hashAddress o.address) o.data.codeHash).2
        (.loadCode o.data.codeHash)
      have filled := recached_of_code reads
        ((B.contractCode reads.db (B.hashAddress o.address) o.data.codeHash).2.elim o
          fun e => o.setError (.loadCode o.data.codeHash e))
      rw [remembered.code, value] at filled
      exact ⟨value.symm, remembered.trans filled⟩
  · exact ⟨by simp [codeValue, cached], .refl reads o⟩

/-- All getters agree on the two objects. Fake storage is compared only in its presence: it
takes writes that the journal does not know.
-/
structure Object.Same (reads : Reads B) (o o' : Object B) : Prop where
  address : o'.address = o.address
  data : o'.data = o.data
  suicided : o'.suicided = o.suicided
  deleted : o'.deleted = o.deleted
  code : o'.codeValue reads.db = o.codeValue reads.db
  fake : o'.fakeStorage = none ↔ o.fakeStorage = none
  state : o.fakeStorage = none → ∀ key, o'.stateValue reads key = o.stateValue reads key
  committed
    : o.fakeStorage = none → ∀ key, o'.committedValue reads key = o.committedValue reads key

theorem Object.Same.refl : Same reads o o :=
  ⟨rfl, rfl, rfl, rfl, rfl, Iff.rfl, fun _ _ => rfl, fun _ _ => rfl⟩

theorem Object.stateValue_setState (key value other : Hash)
    : (o.setState key value).stateValue reads other
      = if other = key then value else o.stateValue reads other := by
  simp only [stateValue, setState, GoMap.set_apply]
  split
  · rfl
  · rfl

theorem Object.same_setBalance_back (amount : Int)
    : Same reads o ((o.setBalance amount).setBalance o.data.balance) :=
  .refl reads o

theorem Object.same_setNonce_back (nonce : UInt64)
    : Same reads o ((o.setNonce nonce).setNonce o.data.nonce) :=
  .refl reads o

/-- Setting back the code that was read leaves the same code, also where that was nil and the
database is asked again.
-/
theorem Object.same_setCode_back (codeHash : Hash) (code : Option Bytes)
    : Same reads o
      ((o.setCode codeHash code).setCode o.data.codeHash (o.codeValue reads.db)) := by
  refine { Same.refl reads o with code := ?_ }
  simp only [setCode, codeValue, Option.or_assoc, Option.or_self]

theorem Object.same_setState_back (key value : Hash)
    : Same reads o ((o.setState key value).setState key (o.stateValue reads key)) := by
  refine { Same.refl reads o with state := fun _ other => ?_ }
  simp only [stateValue_setState]
  split
  · rename_i same
    rw [same]
  · rfl

variable {reads o}

/-- Objects that cannot be told apart, in two steps. -/
theorem Object.Same.trans (first : Same reads o middle) (second : Same reads middle next)
    : Same reads o next where
  address := second.address.trans first.address
  data := second.data.trans first.data
  suicided := second.suicided.trans first.suicided
  deleted := second.deleted.trans first.deleted
  code := second.code.trans first.code
  fake := second.fake.trans first.fake
  state noFake key := (second.state (first.fake.mpr noFake) key).trans (first.state noFake key)
  committed noFake key :=
    (second.committed (first.fake.mpr noFake) key).trans (first.committed noFake key)

theorem Object.Recached.same (recached : Recached reads o next) : Same reads o next := by
  have committed := recached.committed
  have code := recached.code
  obtain ⟨_, _, _, _, rfl⟩ := recached.object
  refine ⟨rfl, rfl, rfl, rfl, code, Iff.rfl, ?_, fun _ => committed⟩
  intro _ key
  simp only [Object.stateValue, committed key]

variable (same : Object.Same reads o o')
include same

theorem Object.Same.setBalance (amount : Int)
    : Same reads (o.setBalance amount) (o'.setBalance amount) :=
  { same with data := by simp [Object.setBalance, same.data] }

theorem Object.Same.setNonce (nonce : UInt64) : Same reads (o.setNonce nonce) (o'.setNonce nonce) :=
  { same with data := by simp [Object.setNonce, same.data] }

theorem Object.Same.setSuicided (flag : Bool)
    : Same reads { o with suicided := flag } { o' with suicided := flag } :=
  { same with suicided := rfl }

theorem Object.Same.setCode (codeHash : Hash) (code : Option Bytes)
    : Same reads (o.setCode codeHash code) (o'.setCode codeHash code) :=
  { same with
    data := by simp [Object.setCode, same.data]
    code := by simp [Object.setCode, Object.codeValue, same.address] }

theorem Object.Same.setState (key value : Hash)
    : Same reads (o.setState key value) (o'.setState key value) :=
  { same with
    state := fun noFake other => by
      rw [Object.stateValue_setState, Object.stateValue_setState, same.state noFake other] }

end GoBinacoin.State
