import GoBinacoin.Lib.Program
import GoBinacoin.Rlp.Canonical

/-! Encoding and decoding of Go values by their types. The source generates a writer and a
decoder for a type by reflection; here a description of the type takes the place of
`reflect.Type`, and the generated functions are computed from it.
-/

namespace GoBinacoin.Rlp

open BigEndian Program

mutual
/-- The types of struct fields and slice elements, with the names errors print for them. -/
inductive Ty where
  | uint64
  | bigInt
  | bytes
  | byteArray (name : String) (length : Nat)
  | nilPtr (elem : Ty)
  | slice (name : String) (elem : Ty)
  | struct (name : String) (fields : Fields)

/-- The fields of a struct without the tags "optional" and "tail". -/
inductive Fields where
  | nil
  | cons (name : String) (ty : Ty) (rest : Fields)
end

mutual
/-- The values of a type. A pointer to an integer is never nil. -/
def Ty.Val : Ty → Type
  | .uint64 => UInt64
  | .bigInt => Int
  | .bytes => Bytes
  | .byteArray _ length => { b : Bytes // b.length = length }
  | .nilPtr elem => Option elem.Val
  | .slice _ elem => List elem.Val
  | .struct _ fields => fields.Val

def Fields.Val : Fields → Type
  | .nil => Unit
  | .cons _ ty rest => ty.Val × rest.Val
end

def Ty.name : Ty → String
  | .uint64 => "uint64"
  | .bigInt => "*big.Int"
  | .bytes => "[]uint8"
  | .byteArray name _ => name
  | .nilPtr elem => "*" ++ elem.name
  | .slice name _ => name
  | .struct name _ => name

/-- `defaultNilKind`: the kind of empty value that stands for a nil pointer. -/
def defaultNilKind : Ty → Kind
  | .uint64 | .bytes | .byteArray _ _ => .string
  | _ => .list

structure DecodeError where
  msg : String
  typ : String
  ctx : List String := []
  deriving DecidableEq, Repr

/-- An error of the stream itself, or one that tells what was decoded. -/
inductive Failure where
  | stream (e : Err)
  | decode (e : DecodeError)
  deriving DecidableEq, Repr

def wrapStreamError (e : Err) (typ : String) : Failure :=
  match e with
  | .canonInt => .decode { msg := "non-canonical integer (leading zero bytes)", typ := typ }
  | .canonSize => .decode { msg := "non-canonical size information", typ := typ }
  | .expectedList => .decode { msg := "expected input list", typ := typ }
  | .expectedString => .decode { msg := "expected input string or byte", typ := typ }
  | .uintOverflow => .decode { msg := "input string too long", typ := typ }
  | .notAtEOL => .decode { msg := "input list has too many elements", typ := typ }
  | e => .stream e

def addErrorContext (e : Failure) (ctx : String) : Failure :=
  match e with
  | .decode err => .decode { err with ctx := err.ctx ++ [ctx] }
  | e => e

/-- A decoder of values of one type. -/
abbrev Decoder (α : Type) := Prog Stream Failure α

/-- A method of the stream, with its errors translated. -/
def translated {α : Type} (translate : Err → Failure) (method : Stream → Result α)
    : Decoder α := fun s =>
  match method s with
  | (.error e, s) => (.error (translate e), s)
  | (.ok a, s) => (.ok a, s)

/-- Errors tell the type that was decoded. -/
def wrapped {α : Type} (typ : String) (method : Stream → Result α) : Decoder α :=
  translated (wrapStreamError · typ) method

def Stream.uint (maxbits : Nat) (s : Stream) : Result Nat :=
  match s.kind with
  | (.error e, s) => (.error e, s)
  | (.ok (.byte, _), s) =>
      if s.byteval = 0 then (.error .canonInt, s)
      else (.ok s.byteval.toNat, { s with kindAhead := none })
  | (.ok (.string, size), s) =>
      if size > maxbits / 8 then
        (.error .uintOverflow, s)
      else
        match s.readUint size with
        -- The error is adjusted because no size is read here.
        | (.error .canonSize, s) => (.error .canonInt, s)
        | (.error e, s) => (.error e, s)
        | (.ok v, s) => if size > 0 ∧ v < 128 then (.error .canonSize, s) else (.ok v, s)
  | (.ok (.list, _), s) => (.error .expectedString, s)

/-- The end of `decodeBigInt`: leading zero bytes are rejected. -/
def setBytes (buffer : Bytes) (s : Stream) : Result Nat :=
  if buffer.head? = some 0 then (.error .canonInt, s) else (.ok (ofBE buffer), s)

def Stream.bigInt (s : Stream) : Result Nat :=
  match s.kind with
  | (.error e, s) => (.error e, s)
  | (.ok (.list, _), s) => (.error .expectedString, s)
  | (.ok (.byte, _), s) => setBytes [s.byteval] { s with kindAhead := none }
  | (.ok (.string, size), s) =>
      if size = 0 then
        setBytes [] { s with kindAhead := none }
      else
        match s.readFull size with
        | (.error e, s) => (.error e, s)
        | (.ok buffer, s) =>
            -- Only buffers of up to 32 bytes are checked for a missing single byte encoding.
            if size ≤ 32 ∧ size = 1 ∧ buffer.head?.any (fun byte => byte < 128) then
              (.error .canonSize, s)
            else
              setBytes buffer s

def decodeUint : Decoder UInt64 := do
  let num ← wrapped "uint64" (Stream.uint 64)
  return UInt64.ofNat num

def decodeBigInt : Decoder Int := do
  let i ← wrapped "*big.Int" Stream.bigInt
  return (i : Int)

def decodeByteSlice : Decoder Bytes := wrapped "[]uint8" Stream.bytes

def decodeByteArray (typ : String) (length : Nat) : Decoder { b : Bytes // b.length = length } :=
  fun s =>
    let fail (msg : String) : Failure := .decode { msg := msg, typ := typ }
    match s.kind with
    | (.error e, s) => (.error (.stream e), s)
    | (.ok (.byte, _), s) =>
        if length = 0 then (.error (fail "input string too long"), s)
        else if length > 1 then (.error (fail "input string too short"), s)
        else if one : [s.byteval].length = length then
          (.ok ⟨[s.byteval], one⟩, { s with kindAhead := none })
        else (.error (fail "input string too short"), s)
    | (.ok (.string, size), s) =>
        if length < size then (.error (fail "input string too long"), s)
        else if length > size then (.error (fail "input string too short"), s)
        else
          match s.readFull length with
          | (.error e, s) => (.error (.stream e), s)
          | (.ok b, s) =>
              if size = 1 ∧ b.head?.any (fun byte => byte < 128) then
                (.error (wrapStreamError .canonSize typ), s)
              else if full : b.length = length then (.ok ⟨b, full⟩, s)
              else (.error (.stream .unexpectedEOF), s)
    | (.ok (.list, _), s) => (.error (wrapStreamError .expectedString typ), s)

def Kind.toString : Kind → String
  | .byte => "Byte"
  | .string => "String"
  | .list => "List"

/-- The decoder `makeNilPtrDecoder` returns for pointers with the tag "nil". -/
def decodeNilPtr {α : Type} (typ : String) (nilKind : Kind) (decodeElem : Decoder α)
    : Decoder (Option α) := fun s =>
  match s.kind with
  | (.error e, s) => (.error (wrapStreamError e typ), s)
  | (.ok (kind, size), s) =>
      if kind ≠ .byte ∧ size = 0 then
        if kind ≠ nilKind then
          (.error (.decode {
            msg := "wrong kind of empty value (got " ++ kind.toString ++ ", want "
              ++ nilKind.toString ++ ")"
            typ := typ
          }), s)
        else
          (.ok none, { s with kindAhead := none })
      else
        match decodeElem s with
        | (.error e, s) => (.error e, s)
        | (.ok v, s) => (.ok (some v), s)

/-- Elements are decoded until the end of the list is reported. -/
def decodeElems {α : Type} (decodeElem : Decoder α) : Nat → Nat → Decoder (List α)
  | 0, _ => Prog.stop (.stream .outOfFuel)
  | fuel + 1, i => fun s =>
      match decodeElem s with
      | (.error (.stream .eol), s) => (.ok [], s)
      | (.error e, s) => (.error (addErrorContext e ("[" ++ toString i ++ "]")), s)
      | (.ok v, s) =>
          match decodeElems decodeElem fuel (i + 1) s with
          | (.error e, s) => (.error e, s)
          | (.ok vs, s) => (.ok (v :: vs), s)

/-- Enter a list, decode what is in it, and leave it at its end. -/
def decodeList {α : Type} (typ : String) (leave : Err → Failure) (decodeAll : Nat → Decoder α)
    : Decoder α := do
  let size ← wrapped typ Stream.list
  let v ← decodeAll size
  translated leave Stream.listEnd
  return v

/-- The elements of a list of the given size. An element takes at least one byte, which
bounds the rounds.
-/
def decodeSized {α : Type} (decodeElem : Decoder α) (size : Nat) : Decoder (List α) := fun s =>
  if size = 0 then (.ok [], s) else decodeElems decodeElem (s.r.length + 1) 0 s

/-- `decodeListSlice`; what `ListEnd` reports is passed on. -/
def decodeSlice {α : Type} (typ : String) (decodeElem : Decoder α) : Decoder (List α) :=
  decodeList typ .stream (decodeSized decodeElem)

/-- One round of the loop over the fields of a struct. -/
def decodeField {α β : Type} (typ name : String) (decode : Decoder α) (rest : Decoder β)
    : Decoder (α × β) := fun s =>
  match decode s with
  | (.error (.stream .eol), s) => (.error (.decode { msg := "too few elements", typ := typ }), s)
  | (.error e, s) => (.error (addErrorContext e ("." ++ name)), s)
  | (.ok v, s) =>
      match rest s with
      | (.error e, s) => (.error e, s)
      | (.ok vs, s) => (.ok (v, vs), s)

/-- The decoder `makeStructDecoder` returns, with the loop over the fields given. -/
def decodeStruct {α : Type} (typ : String) (decodeAll : Decoder α) : Decoder α :=
  decodeList typ (wrapStreamError · typ) (fun _ => decodeAll)

mutual
def makeDecoder : (t : Ty) → Decoder t.Val
  | .uint64 => decodeUint
  | .bigInt => decodeBigInt
  | .bytes => decodeByteSlice
  | .byteArray name length => decodeByteArray name length
  | .nilPtr elem => decodeNilPtr ("*" ++ elem.name) (defaultNilKind elem) (makeDecoder elem)
  | .slice name elem => decodeSlice name (makeDecoder elem)
  | .struct name fields => decodeStruct name (decodeFields name fields)

def decodeFields (typ : String) : (fields : Fields) → Decoder fields.Val
  | .nil => pure ()
  | .cons name ty rest => decodeField typ name (makeDecoder ty) (decodeFields typ rest)
end

/-- `Stream.Decode` with a given way to decode the value. -/
def Stream.decodeAs {α : Type} (name : String) (decode : Decoder α) : Decoder α := fun s =>
  match decode s with
  | (.error (.decode err), s) =>
      (.error (.decode (if err.ctx = [] then err
        else { err with ctx := err.ctx ++ ["(" ++ name ++ ")"] })), s)
  | outcome => outcome

/-- `Stream.Decode` into a value of the type. -/
def Stream.decode (t : Ty) : Decoder t.Val := Stream.decodeAs t.name (makeDecoder t)

/-- `DecodeBytes` with a given way to decode the value, and the error for trailing data. -/
def decodeBytesWith {ε α : Type} (moreThanOneValue : ε) (decode : Prog Stream ε α) (b : Bytes)
    : Except ε α :=
  match decode (Stream.ofBytes b (uint64 b.length)) with
  | (.error e, _) => .error e
  | (.ok v, s) => if s.r.length > 0 then .error moreThanOneValue else .ok v

def decodeBytesInto (t : Ty) (b : Bytes) : Except Failure t.Val :=
  decodeBytesWith (.stream .moreThanOneValue) (Stream.decode t) b

/-- The errors of writers, with those of a type's own `EncodeRLP`. -/
inductive EncodeErr where
  | negativeBigInt
  | notSerializable (typ : String)
  | encodeRLP (msg : String)
  deriving DecidableEq, Repr

def EncBuf.encodeUint (w : EncBuf) (i : Nat) : EncBuf :=
  if i = 0 then
    { w with str := w.str ++ [0x80] }
  else if i < 128 then
    { w with str := w.str ++ [UInt8.ofNat i] }
  else
    { w with str := w.str ++ (0x80 + UInt8.ofNat (putint i).length) :: putint i }

/-- `BitLen` of a natural number. -/
def bitLen (n : Nat) : Nat := if n = 0 then 0 else Nat.log2 n + 1

/-- The lowest bytes of `d`, in the order the inner loop of `writeBigInt` writes them. -/
def lowBytes : Nat → Nat → Bytes
  | 0, _ => []
  | rounds + 1, d => UInt8.ofNat d :: lowBytes rounds (d >>> 8)

/-- `Bits`: the 64-bit words of a number, lowest first. -/
def bitsLoop : Nat → Nat → List Nat
  | 0, _ => []
  | rounds + 1, n => if n = 0 then [] else n % 2 ^ 64 :: bitsLoop rounds (n / 2 ^ 64)

def bits (n : Nat) : List Nat := bitsLoop (bitLen n) n

def EncBuf.writeBigInt (i : Int) (w : EncBuf) : Except EncodeErr EncBuf :=
  if i < 0 then
    .error .negativeBigInt
  else
    let bitlen := bitLen i.toNat
    if bitlen ≤ 64 then
      .ok (w.encodeUint i.toNat)
    else
      let length := (bitlen + 7) / 8
      let headed := w.encodeStringHeader length
      -- The buffer is filled from its end, word by word, until it is full.
      let buf := (((bits i.toNat).flatMap (lowBytes 8)).take length).reverse
      .ok { headed with str := headed.str ++ buf }

/-- A nil pointer to an integer is written as zero. -/
def EncBuf.writeBigIntPtr (ptr : Option Int) (w : EncBuf) : Except EncodeErr EncBuf :=
  match ptr with
  | none => .ok { w with str := w.str ++ [0x80] }
  | some i => w.writeBigInt i

/-- `makeByteArrayWriter`: only arrays of one byte may stand without a header. -/
def EncBuf.writeByteArray (b : Bytes) (w : EncBuf) : EncBuf :=
  match b with
  | [] => { w with str := w.str ++ [0x80] }
  | [byte] =>
      if byte ≤ 0x7f then { w with str := w.str ++ [byte] }
      else { w with str := w.str ++ [0x81, byte] }
  | b =>
      let headed := w.encodeStringHeader b.length
      { headed with str := headed.str ++ b }

/-- How `makePtrWriter` writes a nil pointer. -/
def EncBuf.writeNil (nilKind : Kind) (w : EncBuf) : EncBuf :=
  if nilKind = .string then { w with str := w.str ++ [0x80] }
  else w.list.1.listEnd w.list.2

def writeElems {α : Type} (write : α → EncBuf → Except EncodeErr EncBuf)
    : List α → EncBuf → Except EncodeErr EncBuf
  | [], w => .ok w
  | v :: vs, w => do writeElems write vs (← write v w)

mutual
def makeWriter : (t : Ty) → t.Val → EncBuf → Except EncodeErr EncBuf
  | .uint64, i, w => .ok (w.encodeUint (UInt64.toNat i))
  | .bigInt, i, w => w.writeBigInt i
  | .bytes, b, w => .ok (w.encodeString b)
  | .byteArray _ _, b, w => .ok (w.writeByteArray b.1)
  | .nilPtr elem, none, w => .ok (w.writeNil (defaultNilKind elem))
  | .nilPtr elem, some v, w => makeWriter elem v w
  | .slice _ elem, vs, w => do
      let w' ← writeElems (makeWriter elem) vs w.list.1
      return w'.listEnd w.list.2
  | .struct _ fields, v, w => do
      let w' ← writeFields fields v w.list.1
      return w'.listEnd w.list.2

def writeFields : (fields : Fields) → fields.Val → EncBuf → Except EncodeErr EncBuf
  | .nil, _, w => .ok w
  | .cons _ ty rest, (v, vs), w => do writeFields rest vs (← makeWriter ty v w)
end

/-- `EncodeToBytes` with a given way to write the value. -/
def encodeBytesWith (write : EncBuf → Except EncodeErr EncBuf) : Except EncodeErr Bytes := do
  let w ← write {}
  return w.toBytes

/-- `EncodeToBytes` of a value of the type. -/
def encodeBytesOf (t : Ty) (v : t.Val) : Except EncodeErr Bytes :=
  encodeBytesWith (makeWriter t v)

/-- `Encode` to a writer that accepts everything; nothing is written if it fails. -/
def encodeOntoWith (write : EncBuf → Except EncodeErr EncBuf) (out : Bytes)
    : Except EncodeErr Bytes := do
  let w ← write {}
  return w.toWriter out

def encodeOnto (t : Ty) (v : t.Val) (out : Bytes) : Except EncodeErr Bytes :=
  encodeOntoWith (makeWriter t v) out

end GoBinacoin.Rlp
