import GoBinacoin.Common.Types

/-! The three encodings of keys: key bytes, hex nibbles with a terminator, and the compact form
of nodes on disk.
-/

namespace GoBinacoin.MerkleTrie

/-- A nibble, or the terminator 16. -/
abbrev Nibble := Fin 17

def terminator : Nibble := 16

abbrev HexKey := List Nibble

def hasTerm (s : HexKey) : Bool := s.getLast? = some terminator

def Nibble.byte (n : Nibble) : UInt8 := UInt8.ofNat n.val

/-- `b / 16`. -/
def highNibble (b : UInt8) : Nibble := Fin.ofNat 17 (b.toNat / 16)

/-- `b % 16`. -/
def lowNibble (b : UInt8) : Nibble := Fin.ofNat 17 (b.toNat % 16)

def keybytesToHex (str : Bytes) : HexKey :=
  str.flatMap (fun b => [highNibble b, lowNibble b]) ++ [terminator]

/-- Pairs of nibbles as bytes; the callers pass an even number. -/
def decodeNibbles : HexKey → Bytes
  | a :: b :: rest => ((Nibble.byte a <<< 4) ||| Nibble.byte b) :: decodeNibbles rest
  | _ => []

def hexToCompact (hex : HexKey) : Bytes :=
  let flag : UInt8 := if hasTerm hex then 0x20 else 0
  let hex := if hasTerm hex then hex.dropLast else hex
  match hex with
  | first :: rest =>
      if hex.length % 2 = 1 then (flag ||| 0x10 ||| Nibble.byte first) :: decodeNibbles rest
      else flag :: decodeNibbles hex
  | [] => [flag]

def compactToHex (compact : Bytes) : HexKey :=
  match compact with
  | [] => []
  | flag :: _ =>
      let base := keybytesToHex compact
      let first := (highNibble flag).val
      let base := if first < 2 then base.dropLast else base
      base.drop (2 - first % 2)

/-- `none` is the panic for an odd number of nibbles. -/
def hexToKeybytes (hex : HexKey) : Option Bytes :=
  let hex := if hasTerm hex then hex.dropLast else hex
  if hex.length % 2 = 1 then none else some (decodeNibbles hex)

end GoBinacoin.MerkleTrie
