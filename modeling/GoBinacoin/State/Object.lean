import GoBinacoin.Rlp.Raw

/-! Accounts and state objects. An object is handed around by value: every method returns the
object it leaves behind, with what it cached while reading.
-/

namespace GoBinacoin.State

open BigEndian Rlp

/-- `Account`. A code hash has 32 bytes in every account the node writes. -/
structure Account where
  nonce : UInt64
  balance : Int
  root : Hash
  codeHash : Hash
  deriving DecidableEq

/-- `snapshot.Account`: empty roots and code hashes are left out. -/
structure SlimAccount where
  nonce : UInt64
  balance : Int
  root : Bytes
  codeHash : Option Hash

/-- The bytes of an unsigned integer in RLP: no leading zeros. -/
def uintBytes (n : Nat) : Bytes := if n = 0 then [] else toBE (byteLen n) n

/-- `none` is the panic for a negative balance, which cannot be encoded. -/
def Account.encodeRLP (a : Account) : Option Bytes :=
  if a.balance < 0 then
    none
  else
    some (encodeToBytes (.list [.str (uintBytes a.nonce.toNat),
      .str (uintBytes a.balance.toNat), .str (hashBytes a.root), .str (hashBytes a.codeHash)]))

def canonicalUint (b : Bytes) : Bool := b.head? ≠ some 0

/-- `DecodeBytes` into an `Account`. -/
def Account.decodeRLP (enc : Bytes) : Option Account :=
  match decodeBytes enc with
  | .ok (.list [.str nonce, .str balance, .str root, .str codeHash]) =>
      if canonicalUint nonce && nonce.length ≤ 8 && canonicalUint balance
          && root.length = 32 && codeHash.length = 32 then
        some {
          nonce := UInt64.ofNat (ofBE nonce)
          balance := ofBE balance
          root := bytesToHash root
          codeHash := bytesToHash codeHash
        }
      else none
  | _ => none

/-- The interfaces the state works on: `Database`, `Trie` and `snapshot.Snapshot`, with the
hash function. Reading a trie does not change what it holds.
-/
structure Backend where
  Db : Type
  Trie : Type
  Snap : Type
  Error : Type
  keccak : Bytes → Hash
  openStorageTrie : Db → Hash → Hash → Except Error Trie
  /-- `OpenStorageTrie` at the zero root, which cannot fail. -/
  emptyTrie : Trie
  contractCode : Db → Hash → Hash → Option Bytes × Option Error
  contractCodeSize : Db → Hash → Hash → Nat × Option Error
  tryGet : Db → Trie → Bytes → Except Error Bytes
  tryUpdate : Db → Trie → Bytes → Bytes → Option Error × Trie
  tryDelete : Db → Trie → Bytes → Option Error × Trie
  hash : Trie → Hash × Trie
  commit : Db → Trie → Except Error Hash × Trie × Db
  writeCode : Db → Hash → Bytes → Db
  snapAccount : Snap → Hash → Except Error (Option SlimAccount)
  snapStorage : Snap → Hash → Hash → Except Error Bytes

def Backend.emptyCodeHash (B : Backend) : Hash := B.keccak []

def Backend.hashAddress (B : Backend) (addr : Address) : Hash := B.keccak (addressBytes addr)

/-- No two addresses have the same hash. -/
abbrev Backend.Injective (B : Backend) : Prop := Function.Injective B.hashAddress

abbrev Storage := GoMap Hash Hash

/-- The errors an object remembers. -/
inductive ObjectError (B : Backend) where
  | storageTrie (err : B.Error)
  | loadCode (hash : Hash) (err : B.Error)
  | loadCodeSize (hash : Hash) (err : B.Error)
  | trie (err : B.Error)
  | slot (err : Err)

variable {B : Backend}

structure Object (B : Backend) where
  address : Address
  data : Account
  dbErr : Option (ObjectError B) := none
  trie : Option B.Trie := none
  /-- `none` is the nil slice. -/
  code : Option Bytes := none
  originStorage : Storage := GoMap.empty
  pendingStorage : Storage := GoMap.empty
  dirtyStorage : Storage := GoMap.empty
  fakeStorage : Option Storage := none
  dirtyCode : Bool := false
  suicided : Bool := false
  deleted : Bool := false

/-- `newObject`; the zero root stands for the empty one. -/
def newObject (B : Backend) (address : Address) (data : Account) : Object B :=
  {
    address := address
    data := { data with root := if data.root = 0 then emptyRoot else data.root }
  }

/-- The account a created object starts with. -/
def Backend.blankAccount (B : Backend) : Account :=
  {
    nonce := 0
    balance := 0
    root := emptyRoot
    codeHash := B.emptyCodeHash
  }

def Object.addrHash (o : Object B) : Hash := B.hashAddress o.address

def Object.setError (o : Object B) (err : ObjectError B) : Object B :=
  { o with dbErr := o.dbErr.or (some err) }

def Object.empty (o : Object B) : Bool :=
  o.data.nonce = 0 && o.data.balance = 0 && o.data.codeHash = B.emptyCodeHash

def Object.getTrie (db : B.Db) (o : Object B) : B.Trie × Object B :=
  match o.trie with
  | some trie => (trie, o)
  | none =>
      match B.openStorageTrie db o.addrHash o.data.root with
      | .ok trie => (trie, { o with trie := some trie })
      | .error err =>
          (B.emptyTrie, { o.setError (.storageTrie err) with trie := some B.emptyTrie })

/-- The part of a `StateDB` that reading an object uses. -/
structure Reads (B : Backend) where
  db : B.Db
  snap : Option B.Snap
  snapDestructs : GoMap Hash Unit

/-- What was read for a slot: nothing because the account was destructed, a read error, or
the encoded value.
-/
inductive Fetched (B : Backend) where
  | destructed
  | failed (err : B.Error)
  | encoded (enc : Bytes)

def Object.fetchTrie (db : B.Db) (o : Object B) (key : Hash) : Fetched B × Object B :=
  let (trie, o) := o.getTrie db
  match B.tryGet db trie (hashBytes key) with
  | .error err => (.failed err, o)
  | .ok enc => (.encoded enc, o)

/-- The read of `GetCommittedState` behind its caches: snapshot first, then the trie. -/
def Object.fetch (reads : Reads B) (o : Object B) (key : Hash) : Fetched B × Object B :=
  match reads.snap with
  | none => o.fetchTrie reads.db key
  | some snap =>
      if (reads.snapDestructs o.addrHash).isSome then
        (.destructed, o)
      else
        match B.snapStorage snap o.addrHash (B.keccak (hashBytes key)) with
        | .error _ => o.fetchTrie reads.db key
        | .ok enc => (.encoded enc, o)

/-- The value of an encoded slot; an undecodable one reads as zero. -/
def decodeSlot (enc : Bytes) : Hash × Option Err :=
  if enc = [] then (0, none)
  else
    match split enc with
    | .error e => (0, some e)
    | .ok (_, content, _) => (bytesToHash content, none)

namespace Object

def getCommittedState (reads : Reads B) (o : Object B) (key : Hash)
    : Hash × Object B :=
  match o.fakeStorage with
  | some fake => ((fake key).getD 0, o)
  | none =>
      match (o.pendingStorage key).or (o.originStorage key) with
      | some value => (value, o)
      | none =>
          match o.fetch reads key with
          | (.destructed, o) => (0, o)
          | (.failed err, o) => (0, o.setError (.trie err))
          | (.encoded enc, o) =>
              let (value, err) := decodeSlot enc
              let o := err.elim o fun e => o.setError (.slot e)
              (value, { o with originStorage := o.originStorage.set key value })

def getState (reads : Reads B) (o : Object B) (key : Hash) : Hash × Object B :=
  match o.fakeStorage with
  | some fake => ((fake key).getD 0, o)
  | none =>
      match o.dirtyStorage key with
      | some value => (value, o)
      | none => o.getCommittedState reads key

/-- `Code`; a failed load leaves the cache empty. -/
def getCode (db : B.Db) (o : Object B) : Option Bytes × Object B :=
  match o.code with
  | some code => (some code, o)
  | none =>
      if o.data.codeHash = B.emptyCodeHash then (none, o)
      else
        match B.contractCode db o.addrHash o.data.codeHash with
        | (code, err) =>
            let o := err.elim o fun e => o.setError (.loadCode o.data.codeHash e)
            (code, { o with code := code })

/-- `CodeSize` does not fill the code cache. -/
def getCodeSize (db : B.Db) (o : Object B) : Nat × Object B :=
  match o.code with
  | some code => (code.length, o)
  | none =>
      if o.data.codeHash = B.emptyCodeHash then (0, o)
      else
        match B.contractCodeSize db o.addrHash o.data.codeHash with
        | (size, err) =>
            (size, err.elim o fun e => o.setError (.loadCodeSize o.data.codeHash e))

def setBalance (o : Object B) (amount : Int) : Object B :=
  { o with data := { o.data with balance := amount } }

def setNonce (o : Object B) (nonce : UInt64) : Object B :=
  { o with data := { o.data with nonce := nonce } }

def setCode (o : Object B) (codeHash : Hash) (code : Option Bytes) : Object B :=
  { o with code := code, data := { o.data with codeHash := codeHash }, dirtyCode := true }

def setState (o : Object B) (key value : Hash) : Object B :=
  { o with dirtyStorage := o.dirtyStorage.set key value }

/-- `SetStorage` with the entries of the given map, in visiting order. -/
def setStorage (o : Object B) (storage : List (Hash × Hash)) : Object B :=
  let fake := storage.foldl (fun m (key, value) => m.set key value)
    (o.fakeStorage.getD GoMap.empty)
  { o with fakeStorage := some fake }

/-- `deepCopy`; the fake storage stays behind. -/
def deepCopy (o : Object B) : Object B :=
  {
    newObject B o.address o.data with
    trie := o.trie
    code := o.code
    dirtyStorage := o.dirtyStorage
    originStorage := o.originStorage
    pendingStorage := o.pendingStorage
    suicided := o.suicided
    dirtyCode := o.dirtyCode
    deleted := o.deleted
  }

end Object

end GoBinacoin.State
