import GoBinacoin.Types.Header

/-! The loop of the transaction pool that schedules maintenance runs, with the goroutines that ask
it for runs and the runs themselves.
-/

namespace GoBinacoin.TxPool

open Types

/-- What the loop reads of a transaction. The sender is the zero address if it cannot be derived. -/
structure TxReader (Tx : Type) where
  sender : Tx → Address
  nonce : Tx → UInt64

/-- `txpoolResetRequest`. -/
structure ResetRequest where
  oldHead : Option Header
  newHead : Option Header
  deriving DecidableEq

inductive Request where
  | reset (req : ResetRequest)
  | promote (req : Finset Address)
  deriving DecidableEq

/-- What the loop receives: a request of a client, or an event. -/
inductive Item (Tx : Type) where
  | request (client : Nat) (req : Request)
  | event (tx : Tx)

/-- The transactions of an account by nonce, as `txSortedMap` has them. -/
abbrev SortedMap (Tx : Type) := GoMap UInt64 Tx

variable {Tx : Type} (reader : TxReader Tx)

/-- What a run of `runReorg` is called with, as the loop collects it. -/
structure Args (Tx : Type) where
  reset : Option ResetRequest := none
  dirtyAccounts : Option (Finset Address) := none
  queuedEvents : GoMap Address (SortedMap Tx) := GoMap.empty

def Args.addReset (args : Args Tx) (req : ResetRequest) : Args Tx :=
  match args.reset with
  | none => { args with reset := some req }
  | some reset => { args with reset := some { reset with newHead := req.newHead } }

def Args.addPromote (args : Args Tx) (req : Finset Address) : Args Tx :=
  match args.dirtyAccounts with
  | none => { args with dirtyAccounts := some req }
  | some accounts => { args with dirtyAccounts := some (accounts ∪ req) }

def Args.addEvent (args : Args Tx) (tx : Tx) : Args Tx :=
  let addr := reader.sender tx
  let events := (args.queuedEvents addr).getD GoMap.empty
  { args with queuedEvents := args.queuedEvents.set addr (events.set (reader.nonce tx) tx) }

def Args.add (args : Args Tx) : Item Tx → Args Tx
  | .request _ (.reset req) => args.addReset req
  | .request _ (.promote req) => args.addPromote req
  | .event tx => args.addEvent reader tx

/-- The accounts that `runReorg` promotes, with those that have queued transactions. -/
def Args.promoteAddrs (args : Args Tx) (queue : Finset Address) : Finset Address :=
  if args.reset.isSome then queue else args.dirtyAccounts.getD ∅

/-- Where the loop stands: at its `select`, at the reply to a request, or at its end. -/
inductive Phase where
  | select
  | reply
  | stopping
  | stopped
  deriving DecidableEq

/-- A client of `requestReset` or `requestPromoteExecutables`. -/
inductive Client where
  | idle
  | waiting
  | holds (done : Nat)
  deriving DecidableEq

/-- A call of `runReorg`, with what was received for it. -/
structure Run (Tx : Type) where
  done : Nat
  args : Args Tx
  batch : List (Item Tx)

/-- The variables of the loop and the goroutines around it. Channels are numbered as they are made;
`active` has the channels of the runs that have not returned.
-/
structure State (Tx : Type) where
  phase : Phase := .select
  curDone : Option Nat := none
  nextDone : Nat := 0
  launchNextRun : Bool := false
  args : Args Tx := {}
  active : List Nat := []
  closed : Finset Nat := ∅
  clients : Nat → Client := fun _ => .idle
  runs : List (Run Tx) := []
  batch : List (Item Tx) := []

/-- The top of the loop. -/
def State.launch (s : State Tx) : State Tx :=
  if s.curDone = none ∧ s.launchNextRun then
    { s with
      active := s.nextDone :: s.active
      curDone := some s.nextDone
      nextDone := s.nextDone + 1
      launchNextRun := false
      args := {}
      runs := s.runs ++ [⟨s.nextDone, s.args, s.batch⟩]
      batch := [] }
  else
    s

def State.take (s : State Tx) (item : Item Tx) : State Tx :=
  { s with args := s.args.add reader item, batch := s.batch ++ [item] }

/-- What can happen. Channels between the loop and its clients are not buffered. -/
inductive Label (Tx : Type) where
  | receive (client : Nat) (req : Request)
  | reply (client : Nat)
  | event (tx : Tx)
  /-- A run returns and closes its channel. -/
  | finish (done : Nat)
  /-- The loop receives from `curDone`. -/
  | done
  | shutdown
  | stop

def State.step (s : State Tx) : Label Tx → Option (State Tx)
  | .receive client req =>
      if s.phase = .select ∧ s.clients client = .idle then
        some { s.take reader (.request client req) with
          phase := .reply
          launchNextRun := true
          clients := Function.update s.clients client .waiting }
      else
        none
  | .reply client =>
      if s.phase = .reply ∧ s.clients client = .waiting then
        some { s with
          phase := .select
          clients := Function.update s.clients client (.holds s.nextDone) }.launch
      else
        none
  | .event tx => if s.phase = .select then some (s.take reader (.event tx)).launch else none
  | .finish done =>
      if done ∈ s.active then
        some { s with active := s.active.erase done, closed := insert done s.closed }
      else
        none
  | .done =>
      if s.phase = .select ∧ s.curDone.any (· ∈ s.closed) then
        some { s with curDone := none }.launch
      else
        none
  | .shutdown => if s.phase = .select then some { s with phase := .stopping } else none
  | .stop =>
      if s.phase = .stopping ∧ s.curDone.all (· ∈ s.closed) then
        some { s with phase := .stopped, closed := insert s.nextDone s.closed }
      else
        none

/-- The states after any interleaving. -/
def State.after (labels : List (Label Tx)) : Option (State Tx) :=
  labels.foldlM (step reader) {}

/-- What the loop received, in order. -/
def Label.item : Label Tx → Option (Item Tx)
  | .receive client req => some (.request client req)
  | .event tx => some (.event tx)
  | _ => none

end GoBinacoin.TxPool
