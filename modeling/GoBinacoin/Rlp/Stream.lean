import GoBinacoin.Rlp.Encode

/-! The streaming RLP decoder over a `bytes.Reader`, and decoding into `interface{}`.
Every method returns its result together with the stream it leaves behind, since errors do
not undo what was read.
-/

namespace GoBinacoin.Rlp

open BigEndian

inductive Kind where
  | byte
  | string
  | list
  deriving DecidableEq, Repr

/-- The errors of the package, and those of `io` it passes on. The last one is not an error
of the source: it marks that the recursion bound of the model was used up.
-/
inductive Err where
  | eol
  | expectedString
  | expectedList
  | canonInt
  | canonSize
  | elemTooLarge
  | valueTooLarge
  | moreThanOneValue
  | notInList
  | notAtEOL
  | uintOverflow
  | eof
  | unexpectedEOF
  | outOfFuel
  deriving DecidableEq, Repr

structure Stream where
  /-- Unread input of the underlying reader. -/
  r : Bytes
  /-- Number of bytes remaining to be read from `r`. -/
  remaining : Nat
  limited : Bool
  /-- List sizes, innermost list first. -/
  stack : List Nat := []
  /-- Kind of the value ahead; `none` is the source's -1. -/
  kindAhead : Option Kind := none
  sizeAhead : Nat := 0
  kinderr : Option Err := none
  byteval : UInt8 := 0
  deriving DecidableEq, Repr

abbrev Result (α : Type) := Except Err α × Stream

/-- Subtraction of `uint64` values. -/
def subU64 (a b : Nat) : Nat := (a + 2 ^ 64 - b) % 2 ^ 64

namespace Stream

/-- `Reset` on a `bytes.Reader`: with or without a given limit the input is limited. -/
def ofBytes (b : Bytes) (inputLimit : Nat) : Stream :=
  {
    r := b
    remaining := if inputLimit > 0 then inputLimit else uint64 b.length
    limited := true
  }

/-- The amount of data remaining in the innermost list, if there is one. -/
def listLimit (s : Stream) : Option Nat := s.stack.head?

/-- The input limit of `willRead`. -/
def willReadInput (n : Nat) (s : Stream) : Result Unit :=
  if s.limited then
    if n > s.remaining then
      (.error .valueTooLarge, s)
    else
      (.ok (), { s with remaining := s.remaining - n })
  else
    (.ok (), s)

def willRead (n : Nat) (s : Stream) : Result Unit :=
  match s.stack with
  | [] => willReadInput n { s with kindAhead := none }
  | limit :: outer =>
      if n > limit then
        (.error .elemTooLarge, { s with kindAhead := none })
      else
        willReadInput n { s with kindAhead := none, stack := (limit - n) :: outer }

def readByte (s : Stream) : Result UInt8 :=
  match s.willRead 1 with
  | (.error e, s) => (.error e, s)
  | (.ok _, s) =>
      match s.r with
      | [] => (.error .unexpectedEOF, s)
      | b :: rest => (.ok b, { s with r := rest })

/-- Fill a buffer of `n` bytes; a short input is consumed before the error is returned. -/
def readFull (n : Nat) (s : Stream) : Result Bytes :=
  match s.willRead n with
  | (.error e, s) => (.error e, s)
  | (.ok _, s) =>
      if s.r.length < n then
        (.error .unexpectedEOF, { s with r := [] })
      else
        (.ok (s.r.take n), { s with r := s.r.drop n })

def readUint (size : Nat) (s : Stream) : Result Nat :=
  match size with
  | 0 => (.ok 0, { s with kindAhead := none })
  | 1 =>
      match s.readByte with
      | (.error e, s) => (.error e, s)
      | (.ok b, s) => (.ok b.toNat, s)
  | _ =>
      match s.readFull size with
      | (.error e, s) => (.error e, s)
      | (.ok buffer, s) =>
          if buffer.head? = some 0 then (.error .canonSize, s) else (.ok (ofBE buffer), s)

/-- A size behind the tag; sizes below 56 should have been in the tag. -/
def readLongSize (kind : Kind) (digits : Nat) (s : Stream)
    : Kind × Nat × Option Err × Stream :=
  match s.readUint digits with
  | (.error e, s) => (kind, 0, some e, s)
  | (.ok size, s) => (kind, size, if size < 56 then some .canonSize else none, s)

def readKind (s : Stream) : Kind × Nat × Option Err × Stream :=
  match s.readByte with
  | (.error e, s') =>
      -- At toplevel the two errors for a missing byte become the plain end of input.
      let e :=
        if s'.stack.isEmpty && (e == .unexpectedEOF || e == .valueTooLarge) then .eof else e
      (.byte, 0, some e, s')
  | (.ok b, s) =>
      let s := { s with byteval := 0 }
      if b < 0x80 then (.byte, 0, none, { s with byteval := b })
      else if b < 0xB8 then (.string, (b - 0x80).toNat, none, s)
      else if b < 0xC0 then s.readLongSize .string (b - 0xB7).toNat
      else if b < 0xF8 then (.list, (b - 0xC0).toNat, none, s)
      else s.readLongSize .list (b - 0xF7).toNat

/-- The size of the value ahead is checked against the limits before its header was read. -/
def sizeError (listLimit : Option Nat) (size : Nat) (s : Stream) : Option Err :=
  if listLimit.any (fun limit => size > limit) then some .elemTooLarge
  else if s.limited && size > s.remaining then some .valueTooLarge
  else none

def kind (s : Stream) : Result (Kind × Nat) :=
  match s.kindAhead with
  | some kind =>
      match s.kinderr with
      | some e => (.error e, s)
      | none => (.ok (kind, s.sizeAhead), s)
  | none =>
      if s.listLimit = some 0 then
        (.error .eol, s)
      else
        let (kind, size, kinderr, next) := s.readKind
        let kinderr := kinderr.or (next.sizeError s.listLimit size)
        let next := { next with kindAhead := some kind, sizeAhead := size, kinderr := kinderr }
        match kinderr with
        | some e => (.error e, next)
        | none => (.ok (kind, size), next)

/-- `Bytes` reads an RLP string. -/
def bytes (s : Stream) : Result Bytes :=
  match s.kind with
  | (.error e, s) => (.error e, s)
  | (.ok (.byte, _), s) => (.ok [s.byteval], { s with kindAhead := none })
  | (.ok (.string, size), s) =>
      match s.readFull size with
      | (.error e, s) => (.error e, s)
      | (.ok b, s) =>
          if size = 1 ∧ b.head?.any (fun byte => byte < 128) then (.error .canonSize, s)
          else (.ok b, s)
  | (.ok (.list, _), s) => (.error .expectedString, s)

/-- `List` enters a list: its size is taken from the enclosing list at once. -/
def list (s : Stream) : Result Nat :=
  match s.kind with
  | (.error e, s) => (.error e, s)
  | (.ok (.list, size), s) =>
      let outer :=
        match s.stack with
        | [] => []
        | limit :: outer => subU64 limit size :: outer
      (.ok size, { s with stack := size :: outer, kindAhead := none, sizeAhead := 0 })
  | (.ok _, s) => (.error .expectedList, s)

def listEnd (s : Stream) : Result Unit :=
  match s.stack with
  | [] => (.error .notInList, s)
  | limit :: outer =>
      if limit > 0 then (.error .notAtEOL, s)
      else (.ok (), { s with stack := outer, kindAhead := none, sizeAhead := 0 })

end Stream

/-- Leave the list whose elements were decoded. -/
def endList (items : List Item) (s : Stream) : Result Item :=
  match s.listEnd with
  | (.error e, s) => (.error e, s)
  | (.ok _, s) => (.ok (.list items), s)

/-- Decode a list of any length with the given decoder for its elements. -/
def decodeListSlice (decodeElems : Stream → Result (List Item)) (s : Stream) : Result Item :=
  match s.list with
  | (.error e, s) => (.error e, s)
  | (.ok 0, s) => endList [] s
  | (.ok _, s) =>
      match decodeElems s with
      | (.error e, s) => (.error e, s)
      | (.ok items, s) => endList items s

mutual
def decodeInterface : Nat → Stream → Result Item
  | 0, s => (.error .outOfFuel, s)
  | fuel + 1, s =>
      match s.kind with
      | (.error e, s) => (.error e, s)
      | (.ok (.list, _), s) => decodeListSlice (decodeSliceElems fuel) s
      | (.ok _, s) =>
          match s.bytes with
          | (.error e, s) => (.error e, s)
          | (.ok b, s) => (.ok (.str b), s)

/-- Elements are decoded until the end of the list is reported. -/
def decodeSliceElems : Nat → Stream → Result (List Item)
  | 0, s => (.error .outOfFuel, s)
  | fuel + 1, s =>
      match decodeInterface fuel s with
      | (.error .eol, s) => (.ok [], s)
      | (.error e, s) => (.error e, s)
      | (.ok item, s) =>
          match decodeSliceElems fuel s with
          | (.error e, s) => (.error e, s)
          | (.ok items, s) => (.ok (item :: items), s)
end

/-- `DecodeBytes` into an `interface{}`. A value uses at most two rounds per input byte. -/
def decodeBytes (b : Bytes) : Except Err Item :=
  match decodeInterface (2 * b.length + 2) (Stream.ofBytes b (uint64 b.length)) with
  | (.error e, _) => .error e
  | (.ok v, s) => if s.r.length > 0 then .error .moreThanOneValue else .ok v

end GoBinacoin.Rlp
