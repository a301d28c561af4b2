import GoBinacoin.Common.Types
import Mathlib.Data.Finset.Basic

/-! A freezer table: items are appended to numbered data files, and an index file has an entry for
the end of each item.
-/

namespace GoBinacoin.Freezer

/-- The content of a file. Every descriptor that is written to stands at the end of the file, and
`Sync` leaves the content as it is.
-/
structure File where
  content : Bytes := []
  deriving DecidableEq

namespace File

def size (f : File) : Nat := f.content.length

def write (f : File) (b : Bytes) : File := { f with content := f.content ++ b }

/-- A longer file is cut, a shorter one is filled up with zeros. -/
def truncate (f : File) (n : Nat) : File where
  content := f.content.take n ++ List.replicate (n - f.size) 0

/-- `ReadAt`, which fails at the end of the file. -/
def readAt (f : File) (offset length : Nat) : Option Bytes :=
  let b := (f.content.drop offset).take length
  if b.length = length then some b else none

end File

/-- The number of a data file and the end of an item in it. -/
structure IndexEntry where
  filenum : Nat := 0
  offset : Nat := 0
  deriving DecidableEq

def indexEntrySize : Nat := 6

def IndexEntry.unmarshalBinary (b : Bytes) : IndexEntry where
  filenum := BigEndian.ofBE (b.take 2)
  offset := BigEndian.ofBE ((b.drop 2).take 4)

/-- The number of the file is stored with two bytes only. -/
def IndexEntry.marshallBinary (i : IndexEntry) : Bytes :=
  BigEndian.toBE 2 i.filenum ++ BigEndian.toBE 4 i.offset

/-- Read an entry into a buffer that holds another one; a failed read leaves it there. -/
def readEntry (index : File) (offset : Nat) (buffer : IndexEntry) : IndexEntry :=
  ((index.readAt offset indexEntrySize).map IndexEntry.unmarshalBinary).getD buffer

inductive FreezerError where
  | closed
  | outOfBounds
  | unexpectedItem (want have_ : Nat)
  | missingDataFile (filenum : Nat)
  | notExist (filenum : Nat)
  | invalidArgument
  | eof
  | corrupt
  | outOfFuel
  deriving DecidableEq

/-- Snappy, and that it decodes what it encodes. -/
structure Snappy where
  encode : Bytes → Bytes
  decode : Bytes → Option Bytes
  decode_encode : ∀ b, decode (encode b) = some b

/-- `freezerTable`, with the files on disk. The set `files` has the numbers of the open data files,
and the head is the open file `headId`. Numbers of type uint32 are kept below 2^32 explicitly.
-/
structure FreezerTable where
  items : Nat := 0
  noCompression : Bool
  maxFileSize : Nat
  files : Finset Nat := ∅
  headId : Nat := 0
  tailId : Nat := 0
  itemOffset : Nat := 0
  headBytes : Nat := 0
  -- `Close` sets the index and the head to nil.
  closed : Bool := false
  index : File
  data : GoMap Nat File

/-- How a file is opened. -/
inductive Opener where
  | openFreezerFileForAppend
  | openFreezerFileForReadOnly
  | openFreezerFileTruncated

namespace FreezerTable

variable (t : FreezerTable)

/-- A data file; a file that does not exist has no content. -/
def file (num : Nat) : File := (t.data num).getD {}

def setFile (num : Nat) (f : File) : FreezerTable := { t with data := t.data.set num f }

def openFile (num : Nat) (opener : Opener) : Except FreezerError FreezerTable :=
  if num ∈ t.files then .ok t
  else
    match opener with
    | .openFreezerFileForAppend =>
        .ok ({ t with files := insert num t.files }.setFile num (t.file num))
    | .openFreezerFileForReadOnly =>
        if (t.data num).isSome then .ok { t with files := insert num t.files }
        else .error (.notExist num)
    | .openFreezerFileTruncated => .ok ({ t with files := insert num t.files }.setFile num {})

def releaseFile (num : Nat) : FreezerTable := { t with files := t.files.erase num }

def releaseFilesAfter (num : Nat) (remove : Bool) : FreezerTable :=
  { t with
    files := t.files.filter (· ≤ num)
    data := if remove then fun n => if n ∈ t.files ∧ num < n then none else t.data n else t.data }

/-- `preopen`: all files but the head are opened for reading. -/
def preopen : Except FreezerError FreezerTable :=
  let t := t.releaseFilesAfter 0 false
  match (List.range' t.tailId (t.headId - t.tailId)).foldlM
      (fun (t : FreezerTable) i => t.openFile i .openFreezerFileForReadOnly) t with
  | .error err => .error err
  | .ok t => t.openFile t.headId .openFreezerFileForAppend

/-- The loop that truncates the index and the head until they are in sync: the table, the size of
the index and that of the head, and the last entry.
-/
def repairLoop
    : Nat → FreezerTable → Nat → Nat → IndexEntry
      → Except FreezerError (FreezerTable × Nat × Nat × IndexEntry)
  | 0, _, _, _, _ => .error .outOfFuel
  | fuel + 1, t, offsetsSize, contentSize, lastIndex =>
      if lastIndex.offset = contentSize then .ok (t, offsetsSize, contentSize, lastIndex)
      else if lastIndex.offset < contentSize then
        -- Truncate the head file to the last offset pointer.
        let head := (t.file lastIndex.filenum).truncate lastIndex.offset
        repairLoop fuel (t.setFile lastIndex.filenum head) offsetsSize lastIndex.offset lastIndex
      else if offsetsSize < indexEntrySize then .error .invalidArgument
      else
        -- Truncate the index to point within the head file.
        let offsetsSize := offsetsSize - indexEntrySize
        let t := { t with index := t.index.truncate offsetsSize }
        let newLastIndex :=
          if offsetsSize < indexEntrySize then lastIndex
          else readEntry t.index (offsetsSize - indexEntrySize) lastIndex
        if newLastIndex.filenum ≠ lastIndex.filenum then
          -- We might have slipped back into an earlier head file.
          match (t.releaseFile lastIndex.filenum).openFile newLastIndex.filenum
              .openFreezerFileForAppend with
          | .error err => .error err
          | .ok t =>
              repairLoop fuel t offsetsSize (t.file newLastIndex.filenum).size newLastIndex
        else repairLoop fuel t offsetsSize contentSize newLastIndex

/-- The end of `repair`: the index and the head are synced, and the counters are set. -/
def finishRepair (offsetsSize contentSize : Nat) (lastIndex : IndexEntry)
    : Except FreezerError FreezerTable :=
  { t with
    -- Without any entry the number wraps around.
    items :=
      if offsetsSize < indexEntrySize then (t.itemOffset + (2 ^ 64 - 1)) % 2 ^ 64
      else t.itemOffset + (offsetsSize / indexEntrySize - 1)
    headBytes := contentSize % 2 ^ 32
    headId := lastIndex.filenum }.preopen

/-- `repair`, from the first entry on. -/
def repairHead (offsetsSize : Nat) : Except FreezerError FreezerTable :=
  let firstIndex := readEntry t.index 0 {}
  let lastIndex :=
    if offsetsSize < indexEntrySize then firstIndex
    else readEntry t.index (offsetsSize - indexEntrySize) firstIndex
  let t := { t with tailId := firstIndex.filenum, itemOffset := firstIndex.offset }
  match t.openFile lastIndex.filenum .openFreezerFileForAppend with
  | .error err => .error err
  | .ok t =>
      let contentSize := (t.file lastIndex.filenum).size
      match repairLoop (offsetsSize + 2) t offsetsSize contentSize lastIndex with
      | .error err => .error err
      | .ok (t, offsetsSize, contentSize, lastIndex) =>
          t.finishRepair offsetsSize contentSize lastIndex

def repair : Except FreezerError FreezerTable :=
  let stat := t.index.size
  let t :=
    if stat = 0 then { t with index := t.index.write (List.replicate indexEntrySize 0) } else t
  let overflow := stat % indexEntrySize
  let t := if overflow ≠ 0 then { t with index := t.index.truncate (stat - overflow) } else t
  t.repairHead t.index.size

/-- The head goes back to an older file, and the files after it are removed. -/
def rewind (filenum : Nat) : Except FreezerError FreezerTable :=
  if filenum ≠ t.headId then
    -- If already open for reading, force a reopen for writing.
    match (t.releaseFile filenum).openFile filenum .openFreezerFileForAppend with
    | .error err => .error err
    | .ok t => .ok { t.releaseFilesAfter filenum true with headId := filenum }
  else .ok t

/-- `truncate`; an error leaves the table as it was. -/
def truncate (items : Nat) : Except FreezerError FreezerTable :=
  if t.items ≤ items then .ok t
  else if t.closed then .error .closed
  else
    let t := { t with index := t.index.truncate ((items + 1) * indexEntrySize) }
    match t.index.readAt (items * indexEntrySize) indexEntrySize with
    | none => .error .eof
    | some buffer =>
        let expected := IndexEntry.unmarshalBinary buffer
        match t.rewind expected.filenum with
        | .error err => .error err
        | .ok t =>
            let head := (t.file t.headId).truncate expected.offset
            .ok { t.setFile t.headId head with items := items, headBytes := expected.offset }

def close : Except FreezerError FreezerTable :=
  if t.closed then .error .closed else .ok { t with closed := true }

def writeBlob (encodedBlob : Bytes) : FreezerTable :=
  t.setFile t.headId ((t.file t.headId).write encodedBlob)

/-- The entry of a blob of a length that was written to the head. -/
def writeEntry (bLen : Nat) : FreezerTable :=
  let newOffset := (t.headBytes + bLen) % 2 ^ 32
  let idx : IndexEntry := { filenum := t.headId, offset := newOffset }
  { t with
    headBytes := newOffset
    index := t.index.write idx.marshallBinary
    items := t.items + 1 }

/-- The next data file becomes the head. -/
def advance : Except FreezerError FreezerTable :=
  let nextID := (t.headId + 1) % 2 ^ 32
  match t.openFile nextID .openFreezerFileTruncated with
  | .error err => .error err
  | .ok opened =>
      let released := opened.releaseFile t.headId
      let reopened :=
        (released.openFile t.headId .openFreezerFileForReadOnly).toOption.getD released
      .ok { reopened with headBytes := 0, headId := nextID }

/-- `append`, and whether to retry with the write lock held. -/
def append (item : Nat) (encodedBlob : Bytes) (wlock : Bool)
    : Except FreezerError (Bool × FreezerTable) :=
  if t.closed then .error .closed
  else if t.items ≠ item then .error (.unexpectedItem t.items item)
  else
    let bLen := encodedBlob.length % 2 ^ 32
    let grown := (t.headBytes + bLen) % 2 ^ 32
    if grown < bLen ∨ grown > t.maxFileSize then
      if wlock then
        match t.advance with
        | .error err => .error err
        | .ok t => .ok (false, (t.writeBlob encodedBlob).writeEntry bLen)
      else .ok (true, t)
    else .ok (false, (t.writeBlob encodedBlob).writeEntry bLen)

variable (snappy : Snappy)

def encodeBlob (blob : Bytes) : Bytes := if t.noCompression then blob else snappy.encode blob

/-- `Append`. -/
def appendItem (item : Nat) (blob : Bytes) : Except FreezerError FreezerTable :=
  match t.append item (t.encodeBlob snappy blob) false with
  | .error err => .error err
  | .ok (retry, t') =>
      if retry then
        match t.append item (t.encodeBlob snappy blob) true with
        | .error err => .error err
        | .ok (_, t) => .ok t
      else .ok t'

/-- `getBounds`: the start and the end of an item, and the number of its file. -/
def getBounds (item : Nat) : Except FreezerError (Nat × Nat × Nat) :=
  match t.index.readAt ((item + 1) * indexEntrySize) indexEntrySize with
  | none => .error .eof
  | some buffer =>
      let endIdx := IndexEntry.unmarshalBinary buffer
      if item ≠ 0 then
        match t.index.readAt (item * indexEntrySize) indexEntrySize with
        | none => .error .eof
        | some buffer =>
            let startIdx := IndexEntry.unmarshalBinary buffer
            -- A piece of data that crosses a data file is in one piece on the second one.
            if startIdx.filenum ≠ endIdx.filenum then .ok (0, endIdx.offset, endIdx.filenum)
            else .ok (startIdx.offset, endIdx.offset, endIdx.filenum)
      else .ok (0, endIdx.offset, endIdx.filenum)

/-- `retrieve`, without decoding. -/
def retrieve (item : Nat) : Except FreezerError Bytes :=
  if t.closed then .error .closed
  else if t.items ≤ item then .error .outOfBounds
  else if t.itemOffset > item then .error .outOfBounds
  else
    match t.getBounds (item - t.itemOffset) with
    | .error err => .error err
    | .ok (startOffset, endOffset, filenum) =>
        if filenum ∈ t.files then
          let length := (endOffset + 2 ^ 32 - startOffset) % 2 ^ 32
          match (t.file filenum).readAt startOffset length with
          | none => .error .eof
          | some blob => .ok blob
        else .error (.missingDataFile filenum)

/-- `Retrieve`. -/
def retrieveItem (item : Nat) : Except FreezerError Bytes :=
  match t.retrieve item with
  | .error err => .error err
  | .ok blob =>
      if t.noCompression then .ok blob
      else
        match snappy.decode blob with
        | none => .error .corrupt
        | some blob => .ok blob

end FreezerTable

/-- `newCustomTable` on the files that are there. -/
def newCustomTable (index : File) (data : GoMap Nat File) (maxFileSize : Nat)
    (noCompression : Bool)
    : Except FreezerError FreezerTable :=
  FreezerTable.repair
    { noCompression := noCompression, maxFileSize := maxFileSize, index := index, data := data }

end GoBinacoin.Freezer
