import GoBinacoin.State.Snapshot

/-! The end of a transaction and of a block: finalising objects, writing them into the tries,
committing, and copying a state. The visiting orders of the maps are arguments.
-/

namespace GoBinacoin.State

open Rlp

variable {B : Backend}

/-- `finalise`: the dirty slots move to the pending ones. -/
def Object.finalise (order : List Hash) (o : Object B) : Object B :=
  { o with
    pendingStorage := order.foldl
      (fun pending key => (o.dirtyStorage key).elim pending (pending.set key)) o.pendingStorage
    dirtyStorage := GoMap.empty }

/-- The encoded slot, without the leading zeros of the value. -/
def encodeSlot (value : Hash) : Bytes := encodeToBytes (.str (uintBytes value.toNat))

/-- One round of the loop of `updateTrie`. A cleared slot is nil in the snapshot storage. -/
def updateSlot (acc : Object B × B.Trie × StateDB B) (key : Hash)
    : Object B × B.Trie × StateDB B :=
  let (o, tr, s) := acc
  match o.pendingStorage key with
  | none => acc
  | some value =>
      if value = (o.originStorage key).getD 0 then acc
      else
        let o := { o with originStorage := o.originStorage.set key value }
        let v := if value = 0 then [] else encodeSlot value
        let (err, tr) :=
          if value = 0 then B.tryDelete s.db tr (hashBytes key)
          else B.tryUpdate s.db tr (hashBytes key) v
        let o := err.elim o fun e => o.setError (.trie e)
        let storage := ((s.snapStorage o.addrHash).getD GoMap.empty).set
          (B.keccak (hashBytes key)) v
        (o, tr,
          if s.snap.isSome then { s with snapStorage := s.snapStorage.set o.addrHash storage }
          else s)

/-- The orders in which the storage maps of an object are visited. -/
structure SlotOrder where
  dirty : List Hash
  pending : List Hash

/-- `updateTrie`; without pending slots the trie may stay unopened. -/
def StateDB.updateTrie (s : StateDB B) (order : SlotOrder) (o : Object B)
    : Option B.Trie × Object B × StateDB B :=
  let o := o.finalise order.dirty
  if order.pending = [] then
    (o.trie, o, s)
  else
    let (tr, o) := o.getTrie s.db
    let (o, tr, s) := order.pending.foldl updateSlot (o, tr, s)
    (some tr, { o with trie := some tr, pendingStorage := GoMap.empty }, s)

def StateDB.updateRoot (s : StateDB B) (order : SlotOrder) (o : Object B) : StateDB B :=
  match s.updateTrie order o with
  | (none, o, s) => s.setStateObject o
  | (some tr, o, s) =>
      let (root, tr) := B.hash tr
      s.setStateObject { o with trie := some tr, data := { o.data with root := root } }

inductive CommitError (B : Backend) where
  | earlier (err : StateError B)
  | object (err : ObjectError B)
  | trie (err : B.Error)

def StateDB.commitTrie (s : StateDB B) (order : SlotOrder) (o : Object B)
    : Option (CommitError B) × StateDB B :=
  match s.updateTrie order o with
  | (none, o, s) => (none, s.setStateObject o)
  | (some tr, o, s) =>
      match o.dbErr with
      | some err => (some (.object err), s.setStateObject o)
      | none =>
          match B.commit s.db tr with
          | (.error err, tr, db) =>
              (some (.trie err), { s with db := db }.setStateObject { o with trie := some tr })
          | (.ok root, tr, db) =>
              (none, { s with db := db }.setStateObject
                { o with trie := some tr, data := { o.data with root := root } })

def StateDB.prepare (s : StateDB B) (thash : Hash) (ti : UInt64) : StateDB B :=
  { s with thash := thash, txIndex := ti, accessList := newAccessList }

def StateDB.clearJournalAndRefund (s : StateDB B) : StateDB B :=
  let s := if s.journal.entries.isEmpty then s else { s with journal := newJournal, refund := 0 }
  { s with validRevisions := [] }

/-- One round of `Finalise`; the precompile 0x03 may be dirty without being live. -/
def StateDB.finaliseObject (deleteEmptyObjects : Bool) (slots : Address → List Hash)
    (s : StateDB B) (addr : Address)
    : StateDB B :=
  match s.stateObjects.get addr with
  | none => s
  | some o =>
      let s :=
        if o.suicided || (deleteEmptyObjects && o.empty) then
          let s := s.setStateObject { o with deleted := true }
          if s.snap.isSome then
            { s with
              snapDestructs := s.snapDestructs.set o.addrHash ()
              snapAccounts := s.snapAccounts.delete o.addrHash
              snapStorage := s.snapStorage.delete o.addrHash }
          else s
        else s.setStateObject (o.finalise (slots addr))
      { s with
        stateObjectsPending := s.stateObjectsPending.set addr ()
        stateObjectsDirty := s.stateObjectsDirty.set addr () }

/-- The orders in which the maps of a state are visited. -/
structure StateOrder where
  journalDirties : List Address
  finaliseSlots : Address → List Hash
  pendingRoots : List Address
  rootSlots : Address → SlotOrder
  pendingWrites : List Address
  dirtyObjects : List Address
  commitSlots : Address → SlotOrder

def StateDB.finalise (s : StateDB B) (order : StateOrder) (deleteEmptyObjects : Bool)
    : StateDB B :=
  (order.journalDirties.foldl (finaliseObject deleteEmptyObjects order.finaliseSlots)
    s).clearJournalAndRefund

def slimAccountRLP (B : Backend) (a : Account) : Bytes :=
  encodeToBytes (.list [.str (uintBytes a.nonce.toNat), .str (uintBytes a.balance.toNat),
    .str (if a.root = emptyRoot then [] else hashBytes a.root),
    .str (if a.codeHash = B.emptyCodeHash then [] else hashBytes a.codeHash)])

namespace StateDB

def updateStateObject (s : StateDB B) (o : Object B) : Option (StateDB B) :=
  o.data.encodeRLP.map fun data =>
    let (err, trie) := B.tryUpdate s.db s.trie (addressBytes o.address) data
    let s := { s with trie := trie }
    let s := err.elim s fun e => s.setError (.updateStateObject o.address e)
    if s.snap.isSome then
      { s with snapAccounts := s.snapAccounts.set o.addrHash (slimAccountRLP B o.data) }
    else s

def deleteStateObject (s : StateDB B) (o : Object B) : StateDB B :=
  let (err, trie) := B.tryDelete s.db s.trie (addressBytes o.address)
  let s := { s with trie := trie }
  err.elim s fun e => s.setError (.deleteStateObject o.address e)

/-- First loop of `IntermediateRoot`; a missing object is a nil dereference. -/
def updateRoots (slots : Address → SlotOrder) (s : StateDB B)
    : List Address → Option (StateDB B)
  | [] => some s
  | addr :: rest =>
      match s.stateObjects.get addr with
      | none => none
      | some o =>
          updateRoots slots (if o.deleted then s else s.updateRoot (slots addr) o) rest

/-- Second loop of `IntermediateRoot`. -/
def writeObjects (s : StateDB B) : List Address → Option (StateDB B)
  | [] => some s
  | addr :: rest =>
      match s.stateObjects.get addr with
      | none => none
      | some o =>
          (if o.deleted then some (s.deleteStateObject o) else s.updateStateObject o).bind
            fun s => writeObjects s rest

def intermediateRoot (s : StateDB B) (order : StateOrder) (deleteEmptyObjects : Bool)
    : Option (Hash × StateDB B) :=
  let s := s.finalise order deleteEmptyObjects
  (s.updateRoots order.rootSlots order.pendingRoots).bind fun s =>
    (s.writeObjects order.pendingWrites).map fun s =>
      let (root, trie) := B.hash s.trie
      (root, { s with stateObjectsPending := GoMap.empty, trie := trie })

/-- The loop of `Commit` over the dirty objects, with the code written at its end. -/
def commitObjects (slots : Address → SlotOrder) (s : StateDB B)
    (writes : List (Hash × Bytes))
    : List Address → Option (Option (CommitError B) × List (Hash × Bytes) × StateDB B)
  | [] => some (none, writes, s)
  | addr :: rest =>
      match s.stateObjects.get addr with
      | none => none
      | some o =>
          if o.deleted then commitObjects slots s writes rest
          else
            let (writes, o) :=
              match o.code, o.dirtyCode with
              | some code, true =>
                  (writes ++ [(o.data.codeHash, code)], { o with dirtyCode := false })
              | _, _ => (writes, o)
            match s.commitTrie (slots addr) o with
            | (some err, s) => some (some err, writes, s)
            | (none, s) => commitObjects slots s writes rest

/-- `Commit`. The update of the snapshot tree goes past the state and is left out; the state
lets go of its layer.
-/
def commit (s : StateDB B) (order : StateOrder) (deleteEmptyObjects : Bool)
    : Option (Except (CommitError B) Hash × StateDB B) :=
  match s.dbErr with
  | some err => some (.error (.earlier err), s)
  | none =>
      (s.intermediateRoot order deleteEmptyObjects).bind fun (_, s) =>
        (s.commitObjects order.commitSlots [] order.dirtyObjects).map fun
          | (some err, _, s) => (.error err, s)
          | (none, writes, s) =>
              let db := writes.foldl (fun db (hash, code) => B.writeCode db hash code) s.db
              let (result, trie, db) := B.commit db s.trie
              let s := { s with stateObjectsDirty := GoMap.empty, db := db, trie := trie }
              let s :=
                if s.snap.isSome then
                  { s with
                    snap := none
                    snapDestructs := GoMap.empty
                    snapAccounts := GoMap.empty
                    snapStorage := GoMap.empty }
                else s
              (result.mapError .trie, s)

end StateDB

/-- Copies of the objects at the chosen addresses. -/
def Objects.deepCopy (m : Objects B) (keep : Address → Bool) : Objects B where
  get addr := if keep addr then (m.get addr).map Object.deepCopy else none
  keyed addr o present := by
    split at present
    · obtain ⟨original, found, rfl⟩ := Option.map_eq_some_iff.mp present
      exact m.keyed addr original found
    · cases present

/-- Dirty in the journal and live; the precompile 0x03 may be dirty only. -/
def StateDB.journalDirty (s : StateDB B) (addr : Address) : Option Unit :=
  if (s.journal.dirties addr).isSome && (s.stateObjects.get addr).isSome then some () else none

/-- `Copy`. Journal, revisions, remembered errors and the current transaction stay behind. An
address that is marked without being live would be a nil dereference.
-/
def StateDB.copy (s : StateDB B) : StateDB B :=
  let pending : GoMap Address Unit := fun addr =>
    (s.journalDirty addr).or (s.stateObjectsPending addr)
  let dirty : GoMap Address Unit := fun addr =>
    (s.journalDirty addr).or (s.stateObjectsDirty addr)
  { new s.db 0 s.trie s.snap with
    stateObjects := s.stateObjects.deepCopy fun addr =>
      (pending addr).isSome || (dirty addr).isSome
    stateObjectsPending := pending
    stateObjectsDirty := dirty
    refund := s.refund
    logs := s.logs
    logSize := s.logSize
    preimages := s.preimages
    accessList := s.accessList
    snapDestructs := s.snapDestructs
    snapAccounts := s.snapAccounts
    snapStorage := s.snapStorage }

end GoBinacoin.State
