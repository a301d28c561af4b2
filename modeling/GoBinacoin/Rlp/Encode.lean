import GoBinacoin.Common.Types

/-! The RLP encoder: string data and list headers are collected separately in an `encbuf`
and woven together at the end. The recursive definition of RLP is stated beside it.
-/

namespace GoBinacoin.Rlp

open BigEndian

/-- The values an `interface{}` target holds after decoding: `[]byte` or `[]interface{}`. -/
inductive Item where
  | str (bytes : Bytes)
  | list (items : List Item)
  deriving Repr

/-- Conversion of an `int` to `uint64`. -/
def uint64 (n : Nat) : Nat := n % 2 ^ 64

/-- The loop of `intsize`; a `uint64` is shifted to zero after at most eight rounds. -/
def intsizeLoop : Nat → Nat → Nat
  | 0, _ => 0
  | rounds + 1, i => if i / 256 = 0 then 1 else intsizeLoop rounds (i / 256) + 1

def intsize (i : Nat) : Nat := intsizeLoop 8 i

/-- The bytes `putint` writes to the beginning of its buffer. -/
def putint (i : Nat) : Bytes :=
  let byte (n : Nat) : UInt8 := UInt8.ofNat n
  if i < 1 <<< 8 then [byte i]
  else if i < 1 <<< 16 then [byte (i >>> 8), byte i]
  else if i < 1 <<< 24 then [byte (i >>> 16), byte (i >>> 8), byte i]
  else if i < 1 <<< 32 then [byte (i >>> 24), byte (i >>> 16), byte (i >>> 8), byte i]
  else if i < 1 <<< 40 then
    [byte (i >>> 32), byte (i >>> 24), byte (i >>> 16), byte (i >>> 8), byte i]
  else if i < 1 <<< 48 then
    [byte (i >>> 40), byte (i >>> 32), byte (i >>> 24), byte (i >>> 16), byte (i >>> 8), byte i]
  else if i < 1 <<< 56 then
    [byte (i >>> 48), byte (i >>> 40), byte (i >>> 32), byte (i >>> 24), byte (i >>> 16),
      byte (i >>> 8), byte i]
  else
    [byte (i >>> 56), byte (i >>> 48), byte (i >>> 40), byte (i >>> 32), byte (i >>> 24),
      byte (i >>> 16), byte (i >>> 8), byte i]

/-- The bytes `puthead` writes: the size in the tag, or its length in the tag. -/
def puthead (smalltag largetag : UInt8) (size : Nat) : Bytes :=
  if size < 56 then
    [smalltag + UInt8.ofNat size]
  else
    (largetag + UInt8.ofNat (putint size).length) :: putint size

def headsize (size : Nat) : Nat := if size < 56 then 1 else 1 + intsize size

/-- The loop counts the bytes of a number. -/
theorem intsizeLoop_eq {rounds i : Nat} (positive : 0 < rounds) (small : i < 256 ^ rounds)
    : intsizeLoop rounds i = byteLen i := by
  induction rounds generalizing i with
  | zero => omega
  | succ rounds ih =>
    by_cases done : i / 256 = 0
    · have tiny : i < 256 := by omega
      have one : byteLen i = 1 := by simp [byteLen, Nat.log_of_lt tiny]
      simp [intsizeLoop, done, one]
    · have more : 0 < rounds := by
        rcases Nat.eq_zero_or_pos rounds with zero | more
        · subst zero
          omega
        · exact more
      have shifted : i / 256 < 256 ^ rounds := by
        rw [pow_succ] at small
        exact Nat.div_lt_of_lt_mul (by omega)
      have width : byteLen i = byteLen (i / 256) + 1 := by
        rw [byteLen, Nat.log_of_one_lt_of_le (by decide) (by omega : 256 ≤ i), byteLen]
      rw [intsizeLoop, if_neg done, ih more shifted, width]

theorem intsize_eq {i : Nat} (small : i < 2 ^ 64) : intsize i = byteLen i :=
  intsizeLoop_eq (by decide) (by simpa using small)

/-- `putint` writes the shortest big-endian numeral; one case per width. -/
theorem putint_eq {i : Nat} (small : i < 2 ^ 64) : putint i = toBE (byteLen i) i := by
  have width {k : Nat} (lower : 256 ^ k ≤ i) (upper : i < 256 ^ (k + 1)) := byteLen_eq lower upper
  unfold putint
  simp only [Nat.one_shiftLeft]
  split_ifs with h1 h2 h3 h4 h5 h6 h7
  · have one : byteLen i = 1 := by simp [byteLen, Nat.log_of_lt (show i < 256 by omega)]
    simp [one, toBE]
  · rw [width (k := 1) (by omega) (by omega)]
    simp [toBE, Nat.shiftRight_eq_div_pow]
  · rw [width (k := 2) (by omega) (by omega)]
    simp [toBE, Nat.shiftRight_eq_div_pow, Nat.div_div_eq_div_mul]
  · rw [width (k := 3) (by omega) (by omega)]
    simp [toBE, Nat.shiftRight_eq_div_pow, Nat.div_div_eq_div_mul]
  · rw [width (k := 4) (by omega) (by omega)]
    simp [toBE, Nat.shiftRight_eq_div_pow, Nat.div_div_eq_div_mul]
  · rw [width (k := 5) (by omega) (by omega)]
    simp [toBE, Nat.shiftRight_eq_div_pow, Nat.div_div_eq_div_mul]
  · rw [width (k := 6) (by omega) (by omega)]
    simp [toBE, Nat.shiftRight_eq_div_pow, Nat.div_div_eq_div_mul]
  · rw [width (k := 7) (by omega) (by omega)]
    simp [toBE, Nat.shiftRight_eq_div_pow, Nat.div_div_eq_div_mul]

structure ListHead where
  offset : Nat
  size : Nat
  deriving DecidableEq, Repr

def ListHead.encode (head : ListHead) : Bytes := puthead 0xC0 0xF7 (uint64 head.size)

structure EncBuf where
  str : Bytes := []
  lheads : List ListHead := []
  lhsize : Nat := 0
  deriving DecidableEq, Repr

def EncBuf.size (w : EncBuf) : Nat := w.str.length + w.lhsize

def EncBuf.encodeStringHeader (w : EncBuf) (size : Nat) : EncBuf :=
  if size < 56 then
    { w with str := w.str ++ [0x80 + UInt8.ofNat size] }
  else
    let digits := putint (uint64 size)
    { w with str := w.str ++ (0xB7 + UInt8.ofNat digits.length) :: digits }

/-- A single byte below 0x80 stands for itself. -/
def singleByte (b : Bytes) : Bool :=
  match b with
  | [byte] => byte ≤ 0x7F
  | _ => false

def EncBuf.encodeString (w : EncBuf) (b : Bytes) : EncBuf :=
  if singleByte b then
    { w with str := w.str ++ b }
  else
    let headed := w.encodeStringHeader b.length
    { headed with str := headed.str ++ b }

/-- Open a list; its header keeps the header bytes written so far until `listEnd`. -/
def EncBuf.list (w : EncBuf) : EncBuf × Nat :=
  ({ w with lheads := w.lheads ++ [⟨w.str.length, w.lhsize⟩] }, w.lheads.length)

def EncBuf.listEnd (w : EncBuf) (index : Nat) : EncBuf :=
  match w.lheads[index]? with
  | none => w
  | some lh =>
      let size := w.size - lh.offset - lh.size
      {
        w with
        lheads := w.lheads.set index ⟨lh.offset, size⟩
        lhsize := if size < 56 then w.lhsize + 1 else w.lhsize + (1 + intsize (uint64 size))
      }

mutual
/-- `writeInterface` on the two dynamic types of a generic value. -/
def EncBuf.write : Item → EncBuf → EncBuf
  | .str b, w => w.encodeString b
  | .list items, w => (writeAll items w.list.1).listEnd w.list.2

def EncBuf.writeAll : List Item → EncBuf → EncBuf
  | [], w => w
  | item :: rest, w => writeAll rest (write item w)
end

/-- The loop of `toBytes` over the list headers, at position `strpos` of the string data. -/
def weave (str : Bytes) : Nat → List ListHead → Bytes
  | strpos, [] => str.drop strpos
  | strpos, head :: heads =>
      (str.take head.offset).drop strpos ++ head.encode ++ weave str head.offset heads

def EncBuf.toBytes (w : EncBuf) : Bytes := weave w.str 0 w.lheads

/-- The loop of `toWriter` over the list headers, with what was written so far. -/
def toWriterLoop (str : Bytes) : Nat → List ListHead → Bytes → Bytes
  | strpos, [], out => if strpos < str.length then out ++ str.drop strpos else out
  | strpos, head :: heads, out =>
      if head.offset > strpos then
        toWriterLoop str head.offset heads
          (out ++ (str.take head.offset).drop strpos ++ head.encode)
      else
        toWriterLoop str strpos heads (out ++ head.encode)

def EncBuf.toWriter (w : EncBuf) (out : Bytes) : Bytes := toWriterLoop w.str 0 w.lheads out

def encodeToBytes (v : Item) : Bytes := (EncBuf.write v {}).toBytes

/-- A header with the payload size in the tag, or its big-endian length behind the tag. -/
def header (smalltag largetag : UInt8) (size : Nat) : Bytes :=
  if size < 56 then
    [smalltag + UInt8.ofNat size]
  else
    (largetag + UInt8.ofNat (byteLen size)) :: toBE (byteLen size) size

def encodeStr (b : Bytes) : Bytes :=
  if singleByte b then b else header 0x80 0xB7 b.length ++ b

/-- The list with the given payload. -/
def encodeList (payload : Bytes) : Bytes := header 0xC0 0xF7 payload.length ++ payload

mutual
def Item.encode : Item → Bytes
  | .str b => encodeStr b
  | .list items => header 0xC0 0xF7 (encodeAll items).length ++ encodeAll items

def encodeAll : List Item → Bytes
  | [] => []
  | item :: rest => item.encode ++ encodeAll rest
end

@[simp]
theorem encodeAll_nil : encodeAll [] = [] := by simp [encodeAll]

@[simp]
theorem encodeAll_cons (item : Item) (rest : List Item)
    : encodeAll (item :: rest) = item.encode ++ encodeAll rest := by
  simp [encodeAll]

theorem puthead_eq {smalltag largetag : UInt8} {size : Nat} (small : size < 2 ^ 64)
    : puthead smalltag largetag size = header smalltag largetag size := by
  simp [puthead, header, putint_eq small]

theorem header_length {smalltag largetag : UInt8} {size : Nat} (small : size < 2 ^ 64)
    : (header smalltag largetag size).length = headsize size := by
  unfold header headsize
  split
  · rfl
  · simp [intsize_eq small, Nat.add_comm]

end GoBinacoin.Rlp
