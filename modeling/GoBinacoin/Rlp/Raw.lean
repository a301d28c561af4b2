import GoBinacoin.Rlp.Canonical

/-! Splitting RLP values off a byte slice without a stream, and what splitting does to
encodings of values.
-/

namespace GoBinacoin.Rlp

open BigEndian

def readSize (b : Bytes) (slen : Nat) : Except Err Nat :=
  if slen > b.length then
    .error .unexpectedEOF
  else
    let s := ofBE (b.take slen)
    -- Sizes below 56 belong into the tag, and sizes have no leading zero bytes.
    if s < 56 ∨ b.head? = some 0 then .error .canonSize else .ok s

/-- Values larger than the input slice are rejected. -/
def checkContent (buf : Bytes) (kind : Kind) (tagsize contentsize : Nat)
    : Except Err (Kind × Nat × Nat) :=
  if contentsize > buf.length - tagsize then .error .valueTooLarge
  else .ok (kind, tagsize, contentsize)

/-- `readKind` on a slice: the kind of the first value, and the sizes of tag and content. -/
def readKind (buf : Bytes) : Except Err (Kind × Nat × Nat) :=
  match buf with
  | [] => .error .unexpectedEOF
  | b :: rest =>
      if b < 0x80 then checkContent buf .byte 0 1
      else if b < 0xB8 then
        if b = 0x81 ∧ rest.head?.any (fun byte => byte < 128) then .error .canonSize
        else checkContent buf .string 1 (b - 0x80).toNat
      else if b < 0xC0 then
        match readSize rest (b - 0xB7).toNat with
        | .error e => .error e
        | .ok size => checkContent buf .string ((b - 0xB7).toNat + 1) size
      else if b < 0xF8 then checkContent buf .list 1 (b - 0xC0).toNat
      else
        match readSize rest (b - 0xF7).toNat with
        | .error e => .error e
        | .ok size => checkContent buf .list ((b - 0xF7).toNat + 1) size

/-- `Split`: the content of the first value, and the bytes behind the value. -/
def split (b : Bytes) : Except Err (Kind × Bytes × Bytes) :=
  match readKind b with
  | .error e => .error e
  | .ok (kind, ts, cs) => .ok (kind, (b.drop ts).take cs, b.drop (ts + cs))

def splitString (b : Bytes) : Except Err (Bytes × Bytes) :=
  match split b with
  | .error e => .error e
  | .ok (.list, _, _) => .error .expectedString
  | .ok (_, content, rest) => .ok (content, rest)

def splitList (b : Bytes) : Except Err (Bytes × Bytes) :=
  match split b with
  | .error e => .error e
  | .ok (.list, content, rest) => .ok (content, rest)
  | .ok _ => .error .expectedList

/-- The loop of `CountValues`; every value takes at least one byte. -/
def countLoop : Nat → Bytes → Except Err Nat
  | _, [] => .ok 0
  | 0, _ :: _ => .error .outOfFuel
  | fuel + 1, b :: rest =>
      match readKind (b :: rest) with
      | .error e => .error e
      | .ok (_, tagsize, size) =>
          match countLoop fuel ((b :: rest).drop (tagsize + size)) with
          | .error e => .error e
          | .ok count => .ok (count + 1)

def countValues (b : Bytes) : Except Err Nat := countLoop b.length b

def Item.content : Item → Bytes
  | .str b => b
  | .list items => encodeAll items

def Item.tagsize (v : Item) : Nat := v.encode.length - v.content.length

/-- An encoding is a header and the content. -/
theorem Item.encode_eq (v : Item) : v.encode = v.encode.take v.tagsize ++ v.content := by
  have suffix : ∃ tag, v.encode = tag ++ v.content := by
    cases v with
    | str b =>
      simp only [encode, content, encodeStr]
      split
      · exact ⟨[], rfl⟩
      · exact ⟨_, rfl⟩
    | list items => exact ⟨_, by rw [encode, content]⟩
  obtain ⟨tag, encoded⟩ := suffix
  have size : v.tagsize = tag.length := by
    rw [tagsize, encoded, List.length_append]
    omega
  rw [size]
  conv_rhs => rw [encoded, List.take_left]
  exact encoded

theorem Item.tagsize_add (v : Item) : v.tagsize + v.content.length = v.encode.length := by
  have lengths := congrArg List.length v.encode_eq
  rw [List.length_append, List.length_take] at lengths
  unfold tagsize at *
  omega

end GoBinacoin.Rlp
