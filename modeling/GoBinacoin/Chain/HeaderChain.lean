import GoBinacoin.Chain.Index

/-! Batches of headers are written to the header chain: a batch that wins by total difficulty
becomes the canonical chain.
-/

namespace GoBinacoin.Chain

open Types (Header)

/-- The database with the headers and their markers, and the head in memory. Headers and total
difficulties are stored under the hash and the number of the header.
-/
structure HeaderChain where
  headers : GoMap (Hash × Nat) Header
  td : GoMap (Hash × Nat) Nat
  canonical : Canonical
  headHeaderHash : Hash
  currentHeaderHash : Hash
  currentHeader : Header

inductive HeaderError where
  | aborted
  | unknownAncestor
  | nilPointer
  | outOfFuel
  deriving DecidableEq

inductive WriteStatus where
  | nonStatTy
  | canonStatTy
  | sideStatTy
  deriving DecidableEq

structure HeaderWriteResult where
  status : WriteStatus := .nonStatTy
  ignored : Nat := 0
  imported : Nat := 0
  lastHash : Hash := 0
  lastHeader : Option Header := none
  deriving DecidableEq

/-- The variables of `writeHeaders`, and the database with its first batch. A `firstInserted` of -1
is `none`.
-/
structure HeaderImport where
  lastNumber : Nat
  lastHash : Hash
  newTD : Nat
  lastHeader : Option Header := none
  inserted : List (Nat × Hash) := []
  firstInserted : Option Nat := none
  parentKnown : Bool := true
  headers : GoMap (Hash × Nat) Header
  td : GoMap (Hash × Nat) Nat

/-- The canonical hashes and the hash of the head header. -/
structure Markers where
  canonical : Canonical
  headHeaderHash : Hash

/-- `WriteCanonicalHash` and `WriteHeadHeaderHash`. -/
def Markers.mark (m : Markers) (entry : Nat × Hash) : Markers where
  canonical := m.canonical.insert entry.1 entry.2
  headHeaderHash := entry.2

namespace HeaderChain

variable (hash : Header → Hash)

def getHeader (hc : HeaderChain) (h : Hash) (number : Nat) : Option Header :=
  hc.headers (h, number)

def hasHeader (hc : HeaderChain) (h : Hash) (number : Nat) : Bool :=
  (hc.headers (h, number)).isSome

/-- The body of the loop over the headers. -/
def importHeader (hc : HeaderChain) (s : HeaderImport) (i : Nat) (header : Header) (h : Hash)
    : HeaderImport :=
  let number := header.number
  let newTD := s.newTD + header.difficulty
  let alreadyKnown := s.parentKnown && hc.hasHeader h number
  let s :=
    if alreadyKnown then s
    else
      { s with
        td := s.td.set (h, number) newTD
        headers := s.headers.set (hash header, header.number) header
        inserted := s.inserted ++ [(number, h)]
        firstInserted := s.firstInserted <|> some i }
  { s with
    newTD := newTD
    parentKnown := alreadyKnown
    lastHeader := some header
    lastHash := h
    lastNumber := number }

/-- The loop over the headers from an index on. The hash of a header is taken from its successor. -/
def importHeaders (hc : HeaderChain) : Nat → List Header → HeaderImport → HeaderImport
  | _, [], s => s
  | i, header :: rest, s =>
      let h :=
        match rest with
        | [] => hash header
        | next :: _ => next.parentHash
      hc.importHeaders (i + 1) rest (hc.importHeader hash s i header h)

/-- Whether the last header becomes the head. `coin` is the random number being below 0.5. -/
def reorgs (hc : HeaderChain) (s : HeaderImport) (localTD : Nat) (coin : Bool) : Bool :=
  if s.newTD > localTD then true
  else if s.newTD = localTD then
    if s.lastNumber < hc.currentHeader.number then true
    else if s.lastNumber = hc.currentHeader.number then coin
    else false
  else false

/-- The loop that goes backwards from the first header and overwrites stale assignments, up to one
that is canonical already. It reads the database, and writes to the batch.
-/
def markBackwards (hc : HeaderChain)
    : Nat → Hash → Nat → Option Header → Canonical → Except HeaderError Canonical
  | 0, _, _, _, _ => .error .outOfFuel
  | fuel + 1, headHash, headNumber, headHeader, batch =>
      if readCanonicalHash hc.canonical headNumber = headHash then .ok batch
      else
        match headHeader with
        | none => .error .nilPointer
        | some header =>
            hc.markBackwards fuel header.parentHash (header.number - 1)
              (hc.getHeader header.parentHash (header.number - 1))
              (batch.insert headNumber headHash)

/-- The markers after a reorganisation to a batch. -/
def writeMarkers (hc : HeaderChain) (first : Header) (headers : List Header) (s : HeaderImport)
    : Except HeaderError Markers :=
  let chainAlreadyCanon := first.parentHash = hc.currentHeaderHash
  if chainAlreadyCanon then
    .ok (s.inserted.foldl Markers.mark ⟨hc.canonical, hc.headHeaderHash⟩)
  else
    let headHash := first.parentHash
    let headNumber := first.number - 1
    let batch := deleteAbove hc.canonical (s.lastNumber + 1)
    match hc.markBackwards (headNumber + 1) headHash headNumber
        (hc.getHeader headHash headNumber) batch with
    | .error err => .error err
    | .ok batch =>
        let older := (headers.take (s.firstInserted.getD 0)).map fun header =>
          (header.number, hash header)
        .ok (s.inserted.foldl Markers.mark (older.foldl Markers.mark ⟨batch, hc.headHeaderHash⟩))

/-- The second part of `writeHeaders`, after the headers were committed to the database. -/
def chooseHead (hc : HeaderChain) (first : Header) (headers : List Header) (s : HeaderImport)
    (coin : Bool)
    : Except HeaderError (HeaderChain × HeaderWriteResult) :=
  let result (status : WriteStatus) : HeaderWriteResult :=
    { status := if s.inserted = [] then .nonStatTy else status
      ignored := headers.length - s.inserted.length
      imported := s.inserted.length
      lastHash := s.lastHash
      lastHeader := s.lastHeader }
  match hc.td (hc.currentHeaderHash, hc.currentHeader.number) with
  | none => .error .nilPointer
  | some localTD =>
      if hc.reorgs s localTD coin then
        match hc.writeMarkers hash first headers s, s.lastHeader with
        | .error err, _ => .error err
        | .ok _, none => .error .nilPointer
        | .ok markers, some lastHeader =>
            let hc :=
              { hc with
                canonical := markers.canonical
                headHeaderHash := markers.headHeaderHash
                currentHeaderHash := s.lastHash
                currentHeader := lastHeader }
            .ok (hc, result .canonStatTy)
      else .ok (hc, result .sideStatTy)

/-- `writeHeaders`. An interrupt leaves the database as it was. -/
def writeHeaders (hc : HeaderChain) (headers : List Header) (interrupted coin : Bool)
    : Except HeaderError (HeaderChain × HeaderWriteResult) :=
  match headers with
  | [] => .ok (hc, {})
  | first :: _ =>
      match hc.td (first.parentHash, first.number - 1) with
      | none => .error .unknownAncestor
      | some ptd =>
          let s := hc.importHeaders hash 0 headers
            { lastNumber := first.number - 1
              lastHash := first.parentHash
              newTD := ptd
              headers := hc.headers
              td := hc.td }
          if interrupted then .error .aborted
          else
            { hc with headers := s.headers, td := s.td }.chooseHead hash first headers s coin

/-- `InsertHeaderChain`. The process may be stopping when it begins, or be interrupted later. -/
def insertHeaderChain (hc : HeaderChain) (chain : List Header) (stopped interrupted coin : Bool)
    : HeaderChain × Except HeaderError WriteStatus :=
  if stopped then (hc, .error .aborted)
  else
    match hc.writeHeaders hash chain interrupted coin with
    | .error err => (hc, .error err)
    | .ok (hc, result) => (hc, .ok result.status)

end HeaderChain

end GoBinacoin.Chain
