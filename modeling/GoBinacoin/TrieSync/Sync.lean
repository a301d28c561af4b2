import GoBinacoin.Lib.Program
import GoBinacoin.State.Object
import GoBinacoin.Trie.Node
import Mathlib.Data.Finset.Card

/-! The download scheduler of tries: what is requested, what waits for its children, and what is
complete.
-/

namespace GoBinacoin.TrieSync

open MerkleTrie

/-- What is registered below a node: a trie with the callback for its leaves, or a code. -/
inductive Link (Callback : Type) where
  | subTrie (root : Hash) (callback : Option Callback)
  | code (hash : Hash)
  deriving DecidableEq

/-- The leaf callbacks of a sync. A call fails, which it does before it registers anything, or it
registers what is attached to the leaf, wherever the leaf is. A node of fewer than 32 bytes is
embedded into its parent and its leaf is never reported: nothing may hang on such a leaf.
-/
structure Callbacks where
  Callback : Type
  Error : Type
  fails : Callback → List Bytes → Bytes → Option Error
  attached : Callback → Bytes → List (Link Callback)
  small : ∀ callback leaf, leaf.length < 32 → attached callback leaf = []

/-- A node or a code: they are requested, batched and stored apart from each other. -/
inductive Entry where
  | node (hash : Hash)
  | code (hash : Hash)
  deriving DecidableEq

def Entry.hash : Entry → Hash
  | .node hash => hash
  | .code hash => hash

/-- `request`. A parent is pending for as long as it has children, so that its hash stands for
it.
-/
structure Request (Callback : Type) where
  path : HexKey
  data : Option Bytes := none
  parents : List Hash := []
  deps : Int := 0
  callback : Option Callback := none

/-- `Sync`. The pending requests, of nodes and of codes, are given by their keys and by the record
that stands, or has last stood, under each key. The batch lists what was written to it, the newest
first. No `bloom` is a nil filter.
-/
structure Sync (Callback : Type) where
  database : GoMap Entry Bytes
  membatch : List (Entry × Bytes) := []
  reqs : Finset Entry := ∅
  request : Entry → Request Callback := fun _ => { path := [] }
  queue : List (Hash × Int64) := []
  fetches : Int → Int := fun _ => 0
  bloom : Option (Hash → Bool)

/-- The panics of the package. -/
inductive Fault where
  | ancestorNotFound (parent : Hash)
  | unknownNode
  | oddHexKey
  | stackOverflow
  deriving DecidableEq

/-- `emptyState`, the hash of no bytes. -/
def emptyState : Hash := 0xc5d2460186f7233c927e7db2dcc703c0e500b653ca82273b7bfad8045d85a470#256

def maxFetchesPerDepth : Int := 16384

namespace Sync

variable {Callback : Type}

def pending (s : Sync Callback) : Nat := s.reqs.card

/-- A write through the pointer to a request. -/
def modify (s : Sync Callback) (e : Entry) (change : Request Callback → Request Callback)
    : Sync Callback :=
  { s with request := Function.update s.request e (change (s.request e)) }

/-- `hasNode` and `hasCode`. -/
def batched (s : Sync Callback) (e : Entry) : Bool := s.membatch.any fun write => write.1 = e

/-- The check before an entry is requested: the batch, and the database unless the filter rules
the entry out.
-/
def has (s : Sync Callback) (e : Entry) : Bool :=
  s.batched e || (s.bloom.all (· e.hash) && (s.database e).any (·.length > 0))

/-- The order of the queue: deeper paths first, then the lexicographic order of the first 14
nibbles.
-/
def priority (path : HexKey) : Int64 :=
  (path.take 14).zipIdx.foldl
    (fun prio (nibble, i) =>
      prio ||| (Int64.ofNat (15 - Nibble.byte nibble).toNat <<< Int64.ofNat (52 - i * 4)))
    (Int64.ofNat path.length <<< 56)

def schedule (s : Sync Callback) (e : Entry) (req : Request Callback) : Sync Callback :=
  if e ∈ s.reqs then
    -- The callback and the path of the pending request stay.
    s.modify e fun old => { old with parents := old.parents ++ req.parents }
  else
    { s with
      reqs := insert e s.reqs
      request := Function.update s.request e req
      queue := s.queue ++ [(e.hash, priority req.path)] }

/-- The common part of `AddSubTrie` and `AddCodeEntry`. -/
def enter (s : Sync Callback) (e : Entry) (req : Request Callback) (parent : Hash)
    : Except Fault (Sync Callback) :=
  if s.has e then .ok s
  else if parent = 0 then .ok (s.schedule e req)
  else if .node parent ∉ s.reqs then .error (.ancestorNotFound parent)
  else
    let s := s.modify (.node parent) fun ancestor => { ancestor with deps := ancestor.deps + 1 }
    .ok (s.schedule e { req with parents := req.parents ++ [parent] })

def addSubTrie (s : Sync Callback) (root : Hash) (path : HexKey) (parent : Hash)
    (callback : Option Callback)
    : Except Fault (Sync Callback) :=
  if root = emptyRoot then .ok s
  else s.enter (.node root) { path := path, callback := callback } parent

def addCodeEntry (s : Sync Callback) (hash : Hash) (path : HexKey) (parent : Hash)
    : Except Fault (Sync Callback) :=
  if hash = emptyState then .ok s
  else s.enter (.code hash) { path := path } parent

/-- `NewSync`. -/
def new (root : Hash) (database : GoMap Entry Bytes) (callback : Option Callback)
    (bloom : Option (Hash → Bool))
    : Except Fault (Sync Callback) :=
  addSubTrie { database := database, bloom := bloom } root [] 0 callback

/-- An item of the highest priority; the source leaves open which. -/
def peek (queue : List (Hash × Int64)) : Option (Hash × Int64) :=
  queue.foldl (fun best item =>
    match best with
    | none => some item
    | some b => if b.2 < item.2 then some item else some b) none

def newSyncPath (path : HexKey) : Option (List Bytes) :=
  if path.length < 64 then some [hexToCompact path]
  else (hexToKeybytes (path.take 64)).map fun account => [account, hexToCompact (path.drop 64)]

/-- The results of `Missing`. -/
structure Tasks where
  nodes : List Hash := []
  paths : List (List Bytes) := []
  codes : List Hash := []

/-- The loop of `Missing`, which takes an item off the queue in each round. -/
def missingLoop (max : Int) : Nat → Sync Callback → Tasks → Except Fault (Sync Callback × Tasks)
  | 0, s, tasks => .ok (s, tasks)
  | fuel + 1, s, tasks =>
      match peek s.queue with
      | none => .ok (s, tasks)
      | some (hash, prio) =>
          let depth := (prio >>> 56).toInt
          if ¬(max = 0 ∨ ((tasks.nodes.length + tasks.codes.length : Nat) : Int) < max)
              ∨ s.fetches depth > maxFetchesPerDepth then
            .ok (s, tasks)
          else
            let s := { s with
              queue := s.queue.erase (hash, prio)
              fetches := Function.update s.fetches depth (s.fetches depth + 1) }
            if .node hash ∈ s.reqs then
              match newSyncPath (s.request (.node hash)).path with
              | none => .error .oddHexKey
              | some path =>
                  missingLoop max fuel s { tasks with
                    nodes := tasks.nodes ++ [hash]
                    paths := tasks.paths ++ [path] }
            else missingLoop max fuel s { tasks with codes := tasks.codes ++ [hash] }

def missing (s : Sync Callback) (max : Int) : Except Fault (Sync Callback × Tasks) :=
  missingLoop max s.queue.length s {}

/-- The first part of `commit`: the data go to the batch and the request is dropped. -/
def fill (s : Sync Callback) (e : Entry) : Sync Callback :=
  let depth : Int := (s.request e).path.length
  { s with
    membatch := (e, (s.request e).data.getD []) :: s.membatch
    reqs := s.reqs.erase e
    fetches := Function.update s.fetches depth (s.fetches depth - 1) }

/-- `parent.deps--`. -/
def release (s : Sync Callback) (parent : Hash) : Sync Callback :=
  s.modify (.node parent) fun req => { req with deps := req.deps - 1 }

/-- `commit`; each nested call drops a request. -/
def commit : Nat → Sync Callback → Entry → Except Fault (Sync Callback)
  | 0, _, _ => .error .stackOverflow
  | fuel + 1, s, e =>
      (s.request e).parents.foldlM
        (fun s parent =>
          let s := s.release parent
          if (s.request (.node parent)).deps = 0 then commit fuel s (.node parent) else .ok s)
        (s.fill e)

variable {K : Callbacks}

/-- The children of a node with their paths, known or not. -/
def children (path : HexKey) : Node → Except Fault (List (HexKey × Node))
  | .short key val _ => .ok [(path ++ if hasTerm key then key.dropLast else key, val)]
  | .full children _ =>
      .ok (nibbles.filterMap fun i =>
        if (children i).isNil then none else some (path ++ [i], children i))
  | _ => .error .unknownNode

/-- The paths by which an external watcher knows a leaf. -/
def leafPaths (path : HexKey) : Except Fault (List Bytes) :=
  if path.length = 64 then
    match hexToKeybytes path with
    | none => .error .oddHexKey
    | some key => .ok [key]
  else if path.length = 128 then
    match hexToKeybytes (path.take 64), hexToKeybytes (path.drop 64) with
    | some account, some slot => .ok [account, slot]
    | _, _ => .error .oddHexKey
  else .ok []

/-- What a callback does for one sub-trie or code. -/
def attach (s : Sync K.Callback) (path : HexKey) (parent : Hash) (link : Link K.Callback)
    : Except Fault (Sync K.Callback) :=
  match link with
  | .subTrie root callback => s.addSubTrie root path parent callback
  | .code hash => s.addCodeEntry hash path parent

/-- A call of the callback on a leaf below the request for `hash`. -/
def callback (c : K.Callback) (hash : Hash) (path : HexKey) (leaf : Bytes) (s : Sync K.Callback)
    : Except Fault (Sync K.Callback × Option K.Error) :=
  match leafPaths path with
  | .error fault => .error fault
  | .ok paths =>
      match K.fails c paths leaf with
      | some err => .ok (s, some err)
      | none =>
          match (K.attached c leaf).foldlM (fun s link => s.attach path hash link) s with
          | .error fault => .error fault
          | .ok s => .ok (s, none)

/-- The loop of `children` over the children of the request for `hash`: the callback hears of
values, and unknown nodes are collected. Embedded nodes are passed over.
-/
def expand (hash : Hash)
    : List (HexKey × Node) → Sync K.Callback → List (Hash × Request K.Callback)
      → Except Fault (Sync K.Callback × Except K.Error (List (Hash × Request K.Callback)))
  | [], s, requests => .ok (s, .ok requests)
  | (path, .value leaf) :: rest, s, requests =>
      match (s.request (.node hash)).callback with
      | none => expand hash rest s requests
      | some c =>
          match callback c hash path leaf s with
          | .error fault => .error fault
          | .ok (s, some err) => .ok (s, .error err)
          | .ok (s, none) => expand hash rest s requests
  | (path, .hash child) :: rest, s, requests =>
      if s.has (.node child) then expand hash rest s requests
      else
        expand hash rest s (requests ++
          [(child, {
            path := path
            parents := [hash]
            callback := (s.request (.node hash)).callback })])
  | _ :: rest, s, requests => expand hash rest s requests

/-- The errors of `Process`. -/
inductive SyncError (Error : Type) where
  | notRequested
  | alreadyProcessed
  | decode (err : DecodeError)
  | callback (err : Error)

/-- The part of `Process` for a pending code request. -/
def processCode (s : Sync Callback) (hash : Hash) (data : Bytes)
    : Except Fault (Sync Callback × Bool) :=
  if .code hash ∈ s.reqs ∧ (s.request (.code hash)).data = none then
    let s := s.modify (.code hash) fun req => { req with data := some data }
    match s.commit s.reqs.card (.code hash) with
    | .error fault => .error fault
    | .ok s => .ok (s, true)
  else .ok (s, false)

/-- The end of `Process` for a node: without anything to wait for it is complete. -/
def settle (s : Sync Callback) (hash : Hash) (requests : List (Hash × Request Callback))
    : Except Fault (Sync Callback) :=
  if requests.length = 0 ∧ (s.request (.node hash)).deps = 0 then
    s.commit s.reqs.card (.node hash)
  else
    let s := s.modify (.node hash) fun req => { req with deps := req.deps + requests.length }
    .ok (requests.foldl (fun s child => s.schedule (.node child.1) child.2) s)

/-- The part of `Process` for a pending node request. -/
def processNode (s : Sync K.Callback) (hash : Hash) (data : Bytes)
    : Except Fault (Sync K.Callback × Option (SyncError K.Error)) :=
  match decodeNode (some hash) data with
  | .error err => .ok (s, some (.decode err))
  | .ok node =>
      let s := s.modify (.node hash) fun req => { req with data := some data }
      match children (s.request (.node hash)).path node with
      | .error fault => .error fault
      | .ok list =>
          match expand hash list s [] with
          | .error fault => .error fault
          | .ok (s, .error err) => .ok (s, some (.callback err))
          | .ok (s, .ok requests) =>
              match s.settle hash requests with
              | .error fault => .error fault
              | .ok s => .ok (s, none)

def process (s : Sync K.Callback) (hash : Hash) (data : Bytes)
    : Except Fault (Sync K.Callback × Option (SyncError K.Error)) :=
  if .node hash ∉ s.reqs ∧ .code hash ∉ s.reqs then .ok (s, some .notRequested)
  else
    match s.processCode hash data with
    | .error fault => .error fault
    | .ok (s, filled) =>
        if .node hash ∈ s.reqs ∧ (s.request (.node hash)).data = none then s.processNode hash data
        else .ok (s, if filled then none else some .alreadyProcessed)

/-- `Commit`, with the batch that it fills written to the database. -/
def flush (s : Sync Callback) : Sync Callback :=
  { s with
    database := s.membatch.foldr (fun write db => db.set write.1 write.2) s.database
    membatch := []
    bloom := s.bloom.map fun contains hash =>
      contains hash || s.batched (.node hash) || s.batched (.code hash) }

/-- A call from outside. The filter is filled in the background and is wrong for some hashes: its
answers may change at any time.
-/
inductive Call where
  | missing (max : Int)
  | process (hash : Hash) (data : Bytes)
  | commit
  | filter (contains : Hash → Bool)

def call (s : Sync K.Callback) : Call → Except Fault (Sync K.Callback)
  | .missing max => (s.missing max).map Prod.fst
  | .process hash data => (s.process hash data).map Prod.fst
  | .commit => .ok s.flush
  | .filter contains => .ok { s with bloom := s.bloom.map fun _ => contains }

def run (s : Sync K.Callback) (calls : List Call) : Except Fault (Sync K.Callback) :=
  calls.foldlM call s

end Sync

end GoBinacoin.TrieSync
