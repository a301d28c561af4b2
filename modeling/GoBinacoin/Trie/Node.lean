import GoBinacoin.Rlp.Raw
import GoBinacoin.Trie.Encoding

/-! Trie nodes in memory, in collapsed form, and as RLP. -/

namespace GoBinacoin.MerkleTrie

open Rlp

structure NodeFlag where
  hash : Option Hash := none
  dirty : Bool := false
  deriving DecidableEq

/-- `node`: `nil`, `valueNode`, `hashNode`, `shortNode` and `fullNode`. -/
inductive Node where
  | nil
  | value (v : Bytes)
  | hash (h : Hash)
  | short (key : HexKey) (val : Node) (flags : NodeFlag)
  | full (children : Nibble → Node) (flags : NodeFlag)

/-- Collapsed nodes, without flags and with compact keys; `rawShortNode` and `rawFullNode` hold
the same data.
-/
inductive Raw where
  | nil
  | value (v : Bytes)
  | hash (h : Hash)
  | short (key : Bytes) (val : Raw)
  | full (children : Nibble → Raw)

def Node.isNil : Node → Bool
  | .nil => true
  | _ => false

def Raw.isNil : Raw → Bool
  | .nil => true
  | _ => false

def nibbles : List Nibble := List.finRange 17

/-- The nibbles proper, without the terminator. -/
def children16 : List Nibble := (List.finRange 16).map Fin.castSucc

/-- A nil interface is an empty list; an unset child of a full node is an empty string. -/
def Raw.item : Raw → Item
  | .nil => .list []
  | .value v => .str v
  | .hash h => .str (hashBytes h)
  | .short key val => .list [.str key, val.item]
  | .full children =>
      .list (nibbles.map fun i => if (children i).isNil then .str [] else (children i).item)

def Raw.encode (r : Raw) : Bytes := encodeToBytes r.item

inductive DecodeError where
  | unexpectedEOF
  | decode (err : Err)
  | numberOfElements (count : Nat)
  | split (err : Err)
  | invalidValue (err : Err)
  | oversized (size : Nat)
  | stringSize (size : Nat)
  | wrapped (what : DecodeError) (ctx : String)
  | outOfFuel

def hashLen : Nat := 32

/-- `decodeRef`, over the decoder of embedded nodes. -/
def decodeRef (decodeNode : Bytes → Except DecodeError Node) (buf : Bytes)
    : Except DecodeError (Node × Bytes) :=
  match split buf with
  | .error err => .error (.split err)
  | .ok (.list, _, rest) =>
      if buf.length - rest.length > hashLen then .error (.oversized (buf.length - rest.length))
      else (decodeNode buf).map fun n => (n, rest)
  | .ok (.string, [], rest) => .ok (.nil, rest)
  | .ok (.string, val, rest) =>
      if val.length = 32 then .ok (.hash (bytesToHash val), rest)
      else .error (.stringSize val.length)
  | .ok (.byte, val, _) => .error (.stringSize val.length)

def decodeShort (decodeNode : Bytes → Except DecodeError Node) (hash : Option Hash)
    (elems : Bytes)
    : Except DecodeError Node :=
  match splitString elems with
  | .error err => .error (.split err)
  | .ok (kbuf, rest) =>
      let key := compactToHex kbuf
      if hasTerm key then
        match splitString rest with
        | .error err => .error (.invalidValue err)
        | .ok (val, _) => .ok (.short key (.value val) { hash := hash })
      else
        match decodeRef decodeNode rest with
        | .error err => .error (.wrapped err "val")
        | .ok (r, _) => .ok (.short key r { hash := hash })

/-- The loop of `decodeFull` over the first sixteen children. -/
def decodeChildren (decodeNode : Bytes → Except DecodeError Node)
    : List Nibble → (Nibble → Node) → Bytes → Except DecodeError ((Nibble → Node) × Bytes)
  | [], children, elems => .ok (children, elems)
  | i :: rest, children, elems =>
      match decodeRef decodeNode elems with
      | .error err => .error (.wrapped err (toString i.val))
      | .ok (cld, elems) => decodeChildren decodeNode rest (Function.update children i cld) elems

def decodeFull (decodeNode : Bytes → Except DecodeError Node) (hash : Option Hash)
    (elems : Bytes)
    : Except DecodeError Node :=
  match decodeChildren decodeNode children16 (fun _ => .nil) elems with
  | .error err => .error err
  | .ok (children, elems) =>
      match splitString elems with
      | .error err => .error (.split err)
      | .ok (val, _) =>
          let children :=
            if val.length > 0 then Function.update children terminator (.value val) else children
          .ok (.full children { hash := hash })

/-- `decodeNode`; embedded nodes are shorter than the node they are in. -/
def decodeNodeLoop : Nat → Option Hash → Bytes → Except DecodeError Node
  | 0, _, _ => .error .outOfFuel
  | fuel + 1, hash, buf =>
      if buf = [] then .error .unexpectedEOF
      else
        match splitList buf with
        | .error err => .error (.decode err)
        | .ok (elems, _) =>
            let count := match countValues elems with
              | .ok c => c
              | .error _ => 0
            let embedded := decodeNodeLoop fuel none
            if count = 2 then
              (decodeShort embedded hash elems).mapError (.wrapped · "short")
            else if count = 17 then
              (decodeFull embedded hash elems).mapError (.wrapped · "full")
            else .error (.numberOfElements count)

def decodeNode (hash : Option Hash) (buf : Bytes) : Except DecodeError Node :=
  decodeNodeLoop (buf.length + 1) hash buf

end GoBinacoin.MerkleTrie
