import GoBinacoin.Types.Header

/-! The loop of the block fetcher: announced blocks are fetched, completed and queued for import,
with counters per peer against memory exhaustion.
-/

namespace GoBinacoin.Fetcher

def hashLimit : Nat := 256

def blockLimit : Nat := 64

def maxUncleDist : UInt64 := 7

def maxQueueDist : Int64 := 32

/-- What the loop reads of a header. -/
structure Header where
  hash : Hash
  number : UInt64
  txHash : Hash
  uncleHash : Hash
  deriving DecidableEq

/-- `blockAnnounce`; its time is left to the events. -/
structure BlockAnnounce where
  hash : Hash
  number : UInt64
  origin : String
  header : Option Header := none
  deriving DecidableEq

/-- `blockOrHeaderInject`. -/
structure Inject where
  origin : String
  hash : Hash
  number : UInt64
  deriving DecidableEq

/-- `BlockFetcher`. The maps from hashes to announcements and queued blocks are lists of their
values, all of which know their hash. A count that would reach zero is removed.
-/
structure BlockFetcher where
  light : Bool
  announces : GoMap String Nat := GoMap.empty
  announced : List BlockAnnounce := []
  fetching : List BlockAnnounce := []
  fetched : List BlockAnnounce := []
  completing : List BlockAnnounce := []
  queue : List Inject := []
  queues : GoMap String Nat := GoMap.empty
  queued : List Inject := []

/-- The values of a map under a hash. -/
def under (hash : Hash) (l : List BlockAnnounce) : List BlockAnnounce :=
  l.filter fun a => a.hash = hash

/-- `delete` of a hash. -/
def without (hash : Hash) (l : List BlockAnnounce) : List BlockAnnounce :=
  l.filter fun a => a.hash ≠ hash

def count (counts : GoMap String Nat) (peer : String) : Nat := (counts peer).getD 0

/-- `announces[peer]--`, and away with it if nothing is left: the test is `<= 0`. -/
def decrement (counts : GoMap String Nat) (peer : String) : GoMap String Nat :=
  if count counts peer - 1 = 0 then counts.delete peer
  else counts.set peer (count counts peer - 1)

/-- The announcements of a hash that are no longer scheduled. -/
def BlockFetcher.inFlight (f : BlockFetcher) (hash : Hash) : List BlockAnnounce :=
  under hash f.fetching ++ under hash f.fetched ++ under hash f.completing

def BlockFetcher.forgetHash (f : BlockFetcher) (hash : Hash) : BlockFetcher :=
  { f with
    announces := (under hash f.announced ++ f.inFlight hash).foldl
      (fun counts a => decrement counts a.origin) f.announces
    announced := without hash f.announced
    fetching := without hash f.fetching
    fetched := without hash f.fetched
    completing := without hash f.completing }

/-- `queues[peer]--`, and away with it at zero: the test is `== 0`, and a peer without a count would
stay, below zero. A queued block was counted, so that there is one.
-/
def decrementQueue (queues : GoMap String Nat) (peer : String) : GoMap String Nat :=
  if count queues peer = 1 then queues.delete peer else queues.set peer (count queues peer - 1)

def BlockFetcher.isQueued (f : BlockFetcher) (hash : Hash) : Bool := f.queued.any (·.hash = hash)

def BlockFetcher.forgetBlock (f : BlockFetcher) (hash : Hash) : BlockFetcher :=
  match f.queued.find? (·.hash = hash) with
  | none => f
  | some insert =>
      { f with
        queues := decrementQueue f.queues insert.origin
        queued := f.queued.eraseP (·.hash = hash) }

/-- What the bodies of the loop do to the fetcher. -/
inductive Effect where
  | announce (a : BlockAnnounce)
  | forgetHash (hash : Hash)
  | forgetBlock (hash : Hash)
  | fetch (a : BlockAnnounce)
  | gather (a : BlockAnnounce)
  | complete (a : BlockAnnounce)
  | enqueue (op : Inject)
  | pop (op : Inject)

def BlockFetcher.apply (f : BlockFetcher) : Effect → BlockFetcher
  | .announce a =>
      { f with
        announces := f.announces.set a.origin (count f.announces a.origin + 1)
        announced := f.announced ++ [a] }
  | .forgetHash hash => f.forgetHash hash
  | .forgetBlock hash => f.forgetBlock hash
  | .fetch a => { f with fetching := without a.hash f.fetching ++ [a] }
  | .gather a => { f with fetched := f.fetched ++ [a] }
  | .complete a => { f with completing := without a.hash f.completing ++ [a] }
  | .enqueue op =>
      { f with
        queues := f.queues.set op.origin (count f.queues op.origin + 1)
        queued := f.queued ++ [op]
        queue := f.queue ++ [op] }
  | .pop op => { f with queue := f.queue.erase op }

/-- The distance from the head is out of the range of interest. -/
def tooFar (number height : UInt64) : Bool :=
  let dist := number.toInt64 - height.toInt64
  dist < -maxUncleDist.toInt64 ∨ dist > maxQueueDist

def BlockFetcher.enqueue (f : BlockFetcher) (op : Inject) (height : UInt64) : List Effect :=
  if count f.queues op.origin + 1 > blockLimit then [.forgetHash op.hash]
  else if tooFar op.number height then [.forgetHash op.hash]
  else if f.isQueued op.hash then []
  else [.enqueue op]

/-- The bodies of `loop` and of the loops in it, with what they are told from outside: the height
of the chain, whether a block or header is `known` to it, which announcement is picked. Whether
something has timed out is up to the event. An iteration of `loop` runs several of them.
-/
inductive Action where
  | expire (hash : Hash)
  | importNext (op : Inject) (height : UInt64) (known : Bool)
  | notify (notification : BlockAnnounce) (height : UInt64)
  | inject (op : Inject) (height : UInt64)
  | done (hash : Hash)
  | fetchTimer (hash : Hash) (pick : Nat) (known : Bool)
  | completeTimer (hash : Hash) (pick : Nat) (known : Bool)
  | header (peer : String) (header : Header) (known : Bool)
  | incomplete (announce : BlockAnnounce)
  | lightHeader (announce : BlockAnnounce) (height : UInt64)
  | body (peer : String) (announce : BlockAnnounce) (txHash uncleHash : Hash) (known : Bool)
  | block (hash : Hash) (number height : UInt64)

/-- A header that was asked for, from the peer that was asked. -/
def BlockFetcher.filterHeader (f : BlockFetcher) (announce : BlockAnnounce) (header : Header)
    (known : Bool)
    : List Effect :=
  if header.number ≠ announce.number then [.forgetHash header.hash]
  else if f.light then [.forgetHash header.hash]
  else if known then [.forgetHash header.hash]
  else if header.txHash = emptyRoot ∧ header.uncleHash = Types.emptyUncleHash then
    [.complete { announce with header := some header }]
  else []

def BlockFetcher.effects (f : BlockFetcher) : Action → List Effect
  | .expire hash => if under hash f.fetching ≠ [] then [.forgetHash hash] else []
  | .importNext op height known =>
      if ¬(op ∈ f.queue ∧ f.queue.all fun other => op.number ≤ other.number) then []
      else if op.number > height + 1 then []
      else if op.number + maxUncleDist < height ∨ known then [.pop op, .forgetBlock op.hash]
      else [.pop op]
  | .notify notification height =>
      if count f.announces notification.origin + 1 > hashLimit then []
      else if notification.number > 0 ∧ tooFar notification.number height then []
      else if under notification.hash f.fetching ≠ [] then []
      else if under notification.hash f.completing ≠ [] then []
      else [.announce notification]
  | .inject op height => if f.light then [] else f.enqueue op height
  | .done hash => [.forgetHash hash, .forgetBlock hash]
  | .fetchTimer hash pick known =>
      match (under hash f.announced)[pick]? with
      | none => []
      | some announce => .forgetHash hash :: if known then [] else [.fetch announce]
  | .completeTimer hash pick known =>
      match (under hash f.fetched)[pick]? with
      | none => []
      | some announce => .forgetHash hash :: if known then [] else [.complete announce]
  | .header peer header known =>
      match under header.hash f.fetching with
      | announce :: _ =>
          if announce.origin = peer ∧ under header.hash f.fetched = []
              ∧ under header.hash f.completing = [] ∧ ¬f.isQueued header.hash then
            f.filterHeader announce header known
          else []
      | [] => []
  | .incomplete announce => if under announce.hash f.completing ≠ [] then [] else [.gather announce]
  | .lightHeader announce height =>
      f.enqueue ⟨announce.origin, announce.hash, announce.number⟩ height
  | .body peer announce txHash uncleHash known =>
      if announce ∈ f.completing ∧ ¬f.isQueued announce.hash ∧ announce.origin = peer
          ∧ announce.header.any (fun h => h.txHash = txHash ∧ h.uncleHash = uncleHash) ∧ known then
        [.forgetHash announce.hash]
      else []
  | .block hash number height =>
      match under hash f.completing with
      | announce :: _ => f.enqueue ⟨announce.origin, hash, number⟩ height
      | [] => []

def BlockFetcher.handle (f : BlockFetcher) (action : Action) : BlockFetcher :=
  (f.effects action).foldl apply f

end GoBinacoin.Fetcher
