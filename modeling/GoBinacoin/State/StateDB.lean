import GoBinacoin.State.AccessList
import GoBinacoin.State.Object

/-! The state database: live objects over a trie, the journal of changes, and the operations
that record into it. An operation returns `none` where the source panics.
-/

namespace GoBinacoin.State

variable {B : Backend}

inductive JournalEntry (B : Backend) where
  | createObject (account : Address)
  | resetObject (prev : Object B) (prevdestruct : Bool)
  | suicide (account : Address) (prev : Bool) (prevbalance : Int)
  | balance (account : Address) (prev : Int)
  | nonce (account : Address) (prev : UInt64)
  | storage (account : Address) (key prevalue : Hash)
  | code (account : Address) (prevcode : Option Bytes) (prevhash : Hash)
  | refund (prev : UInt64)
  | addLog (txhash : Hash)
  | addPreimage (hash : Hash)
  | touch (account : Address)
  | accessListAddAccount (address : Address)
  | accessListAddSlot (address : Address) (slot : Hash)

/-- The address an entry modifies. -/
def JournalEntry.dirtied : JournalEntry B → Option Address
  | .createObject account => some account
  | .resetObject _ _ => none
  | .suicide account _ _ => some account
  | .balance account _ => some account
  | .nonce account _ => some account
  | .storage account _ _ => some account
  | .code account _ _ => some account
  | .refund _ => none
  | .addLog _ => none
  | .addPreimage _ => none
  | .touch account => some account
  | .accessListAddAccount _ => none
  | .accessListAddSlot _ _ => none

/-- `journal`, with the newest entry first. -/
structure Journal (B : Backend) where
  entries : List (JournalEntry B)
  dirties : GoMap Address Int

def newJournal : Journal B :=
  {
    entries := []
    dirties := GoMap.empty
  }

/-- The count of an absent address reads as zero. -/
def dirtyCount (dirties : GoMap Address Int) (addr : Address) : Int := (dirties addr).getD 0

def incDirty (dirties : GoMap Address Int) (addr : Address) : GoMap Address Int :=
  dirties.set addr (dirtyCount dirties addr + 1)

def decDirty (dirties : GoMap Address Int) (addr : Address) : GoMap Address Int :=
  if dirtyCount dirties addr - 1 = 0 then dirties.delete addr
  else dirties.set addr (dirtyCount dirties addr - 1)

def Journal.append (j : Journal B) (entry : JournalEntry B) : Journal B :=
  {
    entries := entry :: j.entries
    dirties := entry.dirtied.elim j.dirties (incDirty j.dirties)
  }

def Journal.dirty (j : Journal B) (addr : Address) : Journal B :=
  { j with dirties := incDirty j.dirties addr }

/-- `length`. -/
def Journal.size (j : Journal B) : Nat := j.entries.length

structure Log where
  address : Address
  topics : List Hash
  data : Bytes
  blockNumber : UInt64
  txHash : Hash
  txIndex : UInt64
  blockHash : Hash
  index : UInt64
  removed : Bool
  deriving DecidableEq

structure Revision where
  id : Nat
  journalIndex : Nat
  deriving DecidableEq

/-- The live objects, each under its own address. -/
structure Objects (B : Backend) where
  get : GoMap Address (Object B)
  keyed : ∀ addr o, get addr = some o → o.address = addr

def Objects.empty : Objects B where
  get := GoMap.empty
  keyed addr o found := by simp at found

def Objects.set (m : Objects B) (o : Object B) : Objects B where
  get := m.get.set o.address o
  keyed addr found present := by
    rw [GoMap.set_apply] at present
    split at present
    · rename_i same
      rw [same, ← Option.some.inj present]
    · exact m.keyed addr found present

def Objects.delete (m : Objects B) (addr : Address) : Objects B where
  get := m.get.delete addr
  keyed other o present := by
    rw [GoMap.delete_apply] at present
    split at present
    · cases present
    · exact m.keyed other o present

/-- The errors a state remembers. -/
inductive StateError (B : Backend) where
  | getDeleteStateObject (addr : Address) (err : B.Error)
  | updateStateObject (addr : Address) (err : B.Error)
  | deleteStateObject (addr : Address) (err : B.Error)

structure StateDB (B : Backend) where
  db : B.Db
  originalRoot : Hash
  trie : B.Trie
  snap : Option B.Snap
  snapDestructs : GoMap Hash Unit
  snapAccounts : GoMap Hash Bytes
  snapStorage : GoMap Hash (GoMap Hash Bytes)
  stateObjects : Objects B
  stateObjectsPending : GoMap Address Unit
  stateObjectsDirty : GoMap Address Unit
  dbErr : Option (StateError B)
  refund : UInt64
  thash : Hash
  txIndex : UInt64
  logs : GoMap Hash (List Log)
  logSize : UInt64
  preimages : GoMap Hash Bytes
  accessList : AccessList
  journal : Journal B
  validRevisions : List Revision
  nextRevisionId : Nat

namespace StateDB

/-- `New` over an opened trie and the snapshot layer of its root, if there is one. -/
def new (db : B.Db) (root : Hash) (trie : B.Trie) (snap : Option B.Snap) : StateDB B :=
  {
    db := db
    originalRoot := root
    trie := trie
    snap := snap
    snapDestructs := GoMap.empty
    snapAccounts := GoMap.empty
    snapStorage := GoMap.empty
    stateObjects := Objects.empty
    stateObjectsPending := GoMap.empty
    stateObjectsDirty := GoMap.empty
    dbErr := none
    refund := 0
    thash := 0
    txIndex := 0
    logs := GoMap.empty
    logSize := 0
    preimages := GoMap.empty
    accessList := newAccessList
    journal := newJournal
    validRevisions := []
    nextRevisionId := 0
  }

def reads (s : StateDB B) : Reads B :=
  {
    db := s.db
    snap := s.snap
    snapDestructs := s.snapDestructs
  }

def setError (s : StateDB B) (err : StateError B) : StateDB B :=
  { s with dbErr := s.dbErr.or (some err) }

def setStateObject (s : StateDB B) (o : Object B) : StateDB B :=
  { s with stateObjects := s.stateObjects.set o }

def append (s : StateDB B) (entry : JournalEntry B) : StateDB B :=
  { s with journal := s.journal.append entry }

/-- The account below the live objects: from the snapshot, or from the trie. -/
def loadAccount (s : StateDB B) (addr : Address) : Except B.Error (Option Account) :=
  let fromTrie : Except B.Error (Option Account) :=
    match B.tryGet s.db s.trie (addressBytes addr) with
    | .error err => .error err
    | .ok enc => .ok (if enc = [] then none else Account.decodeRLP enc)
  match s.snap with
  | none => fromTrie
  | some snap =>
      match B.snapAccount snap (B.hashAddress addr) with
      | .error _ => fromTrie
      | .ok none => .ok none
      | .ok (some acc) =>
          .ok (some {
            nonce := acc.nonce
            balance := acc.balance
            root := bytesToHash acc.root
            codeHash := acc.codeHash.getD B.emptyCodeHash
          })

/-- A deleted object is returned with its flag set; a loaded object becomes live. -/
def getDeletedStateObject (s : StateDB B) (addr : Address)
    : Option (Object B) × StateDB B :=
  match s.stateObjects.get addr with
  | some o => (some o, s)
  | none =>
      match s.loadAccount addr with
      | .error err => (none, s.setError (.getDeleteStateObject addr err))
      | .ok none => (none, s)
      | .ok (some data) =>
          let o := newObject B addr data
          (some o, s.setStateObject o)

def getStateObject (s : StateDB B) (addr : Address) : Option (Object B) × StateDB B :=
  match s.getDeletedStateObject addr with
  | (some o, s) => (if o.deleted then none else some o, s)
  | (none, s) => (none, s)

/-- A getter of an object, zero where there is none; the object keeps what it cached. -/
def readObject {α : Type} (s : StateDB B) (addr : Address) (absent : α)
    (read : Object B → α × Object B)
    : α × StateDB B :=
  match s.getStateObject addr with
  | (none, s) => (absent, s)
  | (some o, s) =>
      let (value, o) := read o
      (value, s.setStateObject o)

def exist (s : StateDB B) (addr : Address) : Bool × StateDB B :=
  s.readObject addr false fun o => (true, o)

def empty (s : StateDB B) (addr : Address) : Bool × StateDB B :=
  s.readObject addr true fun o => (o.empty, o)

def getBalance (s : StateDB B) (addr : Address) : Int × StateDB B :=
  s.readObject addr 0 fun o => (o.data.balance, o)

def getNonce (s : StateDB B) (addr : Address) : UInt64 × StateDB B :=
  s.readObject addr 0 fun o => (o.data.nonce, o)

def getCode (s : StateDB B) (addr : Address) : Option Bytes × StateDB B :=
  s.readObject addr none fun o => o.getCode s.db

def getCodeSize (s : StateDB B) (addr : Address) : Nat × StateDB B :=
  s.readObject addr 0 fun o => o.getCodeSize s.db

def getCodeHash (s : StateDB B) (addr : Address) : Hash × StateDB B :=
  s.readObject addr 0 fun o => (o.data.codeHash, o)

def getState (s : StateDB B) (addr : Address) (key : Hash) : Hash × StateDB B :=
  s.readObject addr 0 fun o => o.getState s.reads key

def getCommittedState (s : StateDB B) (addr : Address) (key : Hash)
    : Hash × StateDB B :=
  s.readObject addr 0 fun o => o.getCommittedState s.reads key

def hasSuicided (s : StateDB B) (addr : Address) : Bool × StateDB B :=
  s.readObject addr false fun o => (o.suicided, o)

def getRefund (s : StateDB B) : UInt64 := s.refund

/-- `createObject`: the new object, the overwritten one unless it was deleted, and the state. -/
def createObject (s : StateDB B) (addr : Address)
    : Object B × Option (Object B) × StateDB B :=
  let newobj := newObject B addr B.blankAccount
  match s.getDeletedStateObject addr with
  | (none, s) => (newobj, none, (s.append (.createObject addr)).setStateObject newobj)
  | (some prev, s) =>
      let prevdestruct := s.snap.isSome && (s.snapDestructs prev.addrHash).isSome
      let s :=
        if s.snap.isSome && !prevdestruct then
          { s with snapDestructs := s.snapDestructs.set prev.addrHash () }
        else s
      let s := (s.append (.resetObject prev prevdestruct)).setStateObject newobj
      (newobj, if prev.deleted then none else some prev, s)

def getOrNewStateObject (s : StateDB B) (addr : Address) : Object B × StateDB B :=
  match s.getStateObject addr with
  | (some o, s) => (o, s)
  | (none, s) =>
      let (newobj, _, s) := s.createObject addr
      (newobj, s)

/-- The balance of an overwritten account is carried over. -/
def createAccount (s : StateDB B) (addr : Address) : StateDB B :=
  match s.createObject addr with
  | (newobj, some prev, s) => s.setStateObject (newobj.setBalance prev.data.balance)
  | (_, none, s) => s

end StateDB

/-- `0x03`, the precompile whose touch survives a revert. -/
def ripemd : Address := 0x03#160

namespace StateDB

def touch (s : StateDB B) (o : Object B) : StateDB B :=
  let s := s.append (.touch o.address)
  if o.address = ripemd then { s with journal := s.journal.dirty o.address } else s

/-- `SetBalance` of an object that is live. -/
def setObjectBalance (s : StateDB B) (o : Object B) (amount : Int) : StateDB B :=
  (s.append (.balance o.address o.data.balance)).setStateObject (o.setBalance amount)

def addBalance (s : StateDB B) (addr : Address) (amount : Int) : StateDB B :=
  let (o, s) := s.getOrNewStateObject addr
  if amount = 0 then
    if o.empty then s.touch o else s
  else
    s.setObjectBalance o (o.data.balance + amount)

def subBalance (s : StateDB B) (addr : Address) (amount : Int) : StateDB B :=
  let (o, s) := s.getOrNewStateObject addr
  if amount = 0 then s else s.setObjectBalance o (o.data.balance - amount)

def setBalance (s : StateDB B) (addr : Address) (amount : Int) : StateDB B :=
  let (o, s) := s.getOrNewStateObject addr
  s.setObjectBalance o amount

def setNonce (s : StateDB B) (addr : Address) (nonce : UInt64) : StateDB B :=
  let (o, s) := s.getOrNewStateObject addr
  (s.append (.nonce o.address o.data.nonce)).setStateObject (o.setNonce nonce)

def setCode (s : StateDB B) (addr : Address) (code : Option Bytes) : StateDB B :=
  let (o, s) := s.getOrNewStateObject addr
  let (prevcode, o) := o.getCode s.db
  (s.append (.code o.address prevcode o.data.codeHash)).setStateObject
    (o.setCode (B.keccak (code.getD [])) code)

/-- Fake storage takes the write without a journal entry. -/
def setState (s : StateDB B) (addr : Address) (key value : Hash) : StateDB B :=
  let (o, s) := s.getOrNewStateObject addr
  match o.fakeStorage with
  | some fake => s.setStateObject { o with fakeStorage := some (fake.set key value) }
  | none =>
      let (prev, o) := o.getState s.reads key
      if prev = value then s.setStateObject o
      else (s.append (.storage o.address key prev)).setStateObject (o.setState key value)

def setStorage (s : StateDB B) (addr : Address) (storage : List (Hash × Hash))
    : StateDB B :=
  let (o, s) := s.getOrNewStateObject addr
  s.setStateObject (o.setStorage storage)

def suicide (s : StateDB B) (addr : Address) : Bool × StateDB B :=
  match s.getStateObject addr with
  | (none, s) => (false, s)
  | (some o, s) =>
      let s := s.append (.suicide addr o.suicided o.data.balance)
      (true, s.setStateObject { o.setBalance 0 with suicided := true })

def addLog (s : StateDB B) (log : Log) : StateDB B :=
  let log := { log with txHash := s.thash, txIndex := s.txIndex, index := s.logSize }
  { s.append (.addLog s.thash) with
    logs := s.logs.set s.thash ((s.logs s.thash).getD [] ++ [log])
    logSize := s.logSize + 1 }

def addPreimage (s : StateDB B) (hash : Hash) (preimage : Bytes) : StateDB B :=
  match s.preimages hash with
  | some _ => s
  | none =>
      { s.append (.addPreimage hash) with preimages := s.preimages.set hash preimage }

def addRefund (s : StateDB B) (gas : UInt64) : StateDB B :=
  { s.append (.refund s.refund) with refund := s.refund + gas }

/-- `none` is the panic "Refund counter below zero". -/
def subRefund (s : StateDB B) (gas : UInt64) : Option (StateDB B) :=
  if gas > s.refund then none
  else some { s.append (.refund s.refund) with refund := s.refund - gas }

def addAddressToAccessList (s : StateDB B) (addr : Address) : StateDB B :=
  match s.accessList.addAddress addr with
  | (true, al) => { s with accessList := al }.append (.accessListAddAccount addr)
  | (false, _) => s

def addSlotToAccessList (s : StateDB B) (addr : Address) (slot : Hash)
    : Option (StateDB B) :=
  match s.accessList.addSlot addr slot with
  | none => none
  | some (addrMod, slotMod, al) =>
      let s := { s with accessList := al }
      let s := if addrMod then s.append (.accessListAddAccount addr) else s
      some (if slotMod then s.append (.accessListAddSlot addr slot) else s)

def addressInAccessList (s : StateDB B) (addr : Address) : Bool :=
  s.accessList.containsAddress addr

def slotInAccessList (s : StateDB B) (addr : Address) (slot : Hash)
    : Option (Bool × Bool) :=
  s.accessList.contains addr slot

end StateDB

end GoBinacoin.State
