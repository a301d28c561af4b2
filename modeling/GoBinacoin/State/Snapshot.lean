import GoBinacoin.Lib.UndoLog
import GoBinacoin.State.StateDB

/-! Reverting journal entries, revisions, and the operations of a state as data. -/

namespace GoBinacoin.State

variable {B : Backend}

/-- Change the object of an account; `none` is the nil dereference of a missing object. -/
def StateDB.changeObject (s : StateDB B) (addr : Address) (change : Object B → Object B)
    : Option (StateDB B) :=
  match s.getStateObject addr with
  | (none, _) => none
  | (some o, s) => some (s.setStateObject (change o))

def JournalEntry.revert (s : StateDB B) : JournalEntry B → Option (StateDB B)
  | .createObject account =>
      some { s with
        stateObjects := s.stateObjects.delete account
        stateObjectsDirty := s.stateObjectsDirty.delete account }
  | .resetObject prev prevdestruct =>
      let s := s.setStateObject prev
      some (if !prevdestruct && s.snap.isSome then
        { s with snapDestructs := s.snapDestructs.delete prev.addrHash }
      else s)
  | .suicide account prev prevbalance =>
      match s.getStateObject account with
      | (none, s) => some s
      | (some o, s) => some (s.setStateObject { o.setBalance prevbalance with suicided := prev })
  | .balance account prev => s.changeObject account fun o => o.setBalance prev
  | .nonce account prev => s.changeObject account fun o => o.setNonce prev
  | .storage account key prevalue => s.changeObject account fun o => o.setState key prevalue
  | .code account prevcode prevhash => s.changeObject account fun o => o.setCode prevhash prevcode
  | .refund prev => some { s with refund := prev }
  | .addLog txhash =>
      match (s.logs txhash).getD [] with
      | [] => none
      | [_] => some { s with logs := s.logs.delete txhash, logSize := s.logSize - 1 }
      | logs => some { s with logs := s.logs.set txhash logs.dropLast, logSize := s.logSize - 1 }
  | .addPreimage hash => some { s with preimages := s.preimages.delete hash }
  | .touch _ => some s
  | .accessListAddAccount address =>
      some { s with accessList := s.accessList.deleteAddress address }
  | .accessListAddSlot address slot =>
      (s.accessList.deleteSlot address slot).map fun al => { s with accessList := al }

/-- One round of the loop in `journal.revert`: the newest entry is reverted and dropped. -/
def StateDB.undoEntry (entry : JournalEntry B) (s : StateDB B) : Option (StateDB B) :=
  (entry.revert s).map fun next =>
    { next with
      journal := {
        entries := s.journal.entries.tail
        dirties := entry.dirtied.elim s.journal.dirties (decDirty s.journal.dirties)
      } }

/-- The journal as an undo log. -/
def journalLog (B : Backend) : UndoLog.System (StateDB B) (JournalEntry B) where
  entries s := s.journal.entries
  undo := StateDB.undoEntry
  undo_entries := by
    intro entry rest state next head run
    obtain ⟨middle, _, rfl⟩ := Option.map_eq_some_iff.mp run
    simp [head]

def StateDB.snapshot (s : StateDB B) : Nat × StateDB B :=
  (s.nextRevisionId, { s with
    nextRevisionId := s.nextRevisionId + 1
    validRevisions := s.validRevisions
      ++ [{ id := s.nextRevisionId, journalIndex := s.journal.size }] })

/-- Revision ids ascend, so the binary search of the source finds the first match. -/
def StateDB.revertToSnapshot (s : StateDB B) (revid : Nat) : Option (StateDB B) :=
  let idx := s.validRevisions.findIdx fun revision => revision.id ≥ revid
  match s.validRevisions[idx]? with
  | none => none
  | some revision =>
      if revision.id ≠ revid then none
      else
        ((journalLog B).rewindTo revision.journalIndex s).map fun next =>
          { next with validRevisions := next.validRevisions.take idx }

/-- The journaled operations, with revisions, and the getters. -/
inductive Op where
  | addBalance (addr : Address) (amount : Int)
  | subBalance (addr : Address) (amount : Int)
  | setBalance (addr : Address) (amount : Int)
  | setNonce (addr : Address) (nonce : UInt64)
  | setCode (addr : Address) (code : Option Bytes)
  | setState (addr : Address) (key value : Hash)
  | suicide (addr : Address)
  | createAccount (addr : Address)
  | addLog (log : Log)
  | addPreimage (hash : Hash) (preimage : Bytes)
  | addRefund (gas : UInt64)
  | subRefund (gas : UInt64)
  | addAddressToAccessList (addr : Address)
  | addSlotToAccessList (addr : Address) (slot : Hash)
  | snapshot
  | revertToSnapshot (revid : Nat)
  | exist (addr : Address)
  | empty (addr : Address)
  | getBalance (addr : Address)
  | getNonce (addr : Address)
  | getCode (addr : Address)
  | getCodeSize (addr : Address)
  | getCodeHash (addr : Address)
  | getState (addr : Address) (key : Hash)
  | getCommittedState (addr : Address) (key : Hash)
  | hasSuicided (addr : Address)

/-- The state after an operation; `none` is a panic. -/
def Op.run (s : StateDB B) : Op → Option (StateDB B)
  | .addBalance addr amount => some (s.addBalance addr amount)
  | .subBalance addr amount => some (s.subBalance addr amount)
  | .setBalance addr amount => some (s.setBalance addr amount)
  | .setNonce addr nonce => some (s.setNonce addr nonce)
  | .setCode addr code => some (s.setCode addr code)
  | .setState addr key value => some (s.setState addr key value)
  | .suicide addr => some (s.suicide addr).2
  | .createAccount addr => some (s.createAccount addr)
  | .addLog log => some (s.addLog log)
  | .addPreimage hash preimage => some (s.addPreimage hash preimage)
  | .addRefund gas => some (s.addRefund gas)
  | .subRefund gas => s.subRefund gas
  | .addAddressToAccessList addr => some (s.addAddressToAccessList addr)
  | .addSlotToAccessList addr slot => s.addSlotToAccessList addr slot
  | .snapshot => some s.snapshot.2
  | .revertToSnapshot revid => s.revertToSnapshot revid
  | .exist addr => some (s.exist addr).2
  | .empty addr => some (s.empty addr).2
  | .getBalance addr => some (s.getBalance addr).2
  | .getNonce addr => some (s.getNonce addr).2
  | .getCode addr => some (s.getCode addr).2
  | .getCodeSize addr => some (s.getCodeSize addr).2
  | .getCodeHash addr => some (s.getCodeHash addr).2
  | .getState addr key => some (s.getState addr key).2
  | .getCommittedState addr key => some (s.getCommittedState addr key).2
  | .hasSuicided addr => some (s.hasSuicided addr).2

def runOps (s : StateDB B) : List Op → Option (StateDB B)
  | [] => some s
  | op :: rest => (op.run s).bind fun next => runOps next rest

end GoBinacoin.State
