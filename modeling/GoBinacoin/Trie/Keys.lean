import GoBinacoin.Trie.Encoding

/-! The encodings of keys are inverse to each other, and the compact form that is built in place
is the one that is built in a new buffer.
-/

namespace GoBinacoin.MerkleTrie

/-- A place of the buffer that `hexToCompactInPlace` works in: a nibble of the input, or a byte
that was written over it.
-/
abbrev Cell := Nibble ⊕ UInt8

/-- The loop of `hexToCompactInPlace`. `none` is an index out of range, or a nibble that is no
longer there.
-/
def packNibbles (hexLen bi ni : Nat) (hex : List Cell) : Option (List Cell) :=
  if ni < hexLen then
    match hex[ni]?, hex[ni + 1]? with
    | some (.inl high), some (.inl low) =>
        if bi < hex.length then
          packNibbles hexLen (bi + 1) (ni + 2) (hex.set bi (.inr (high.byte <<< 4 ||| low.byte)))
        else none
    | _, _ => none
  else some hex
termination_by hexLen - ni

/-- The buffer afterwards, and the length of the compact key in it. -/
def hexToCompactInPlace (hex : List Cell) : Option (List Cell × Nat) := do
  let hasTerm := hex.getLast? = some (.inl terminator)
  let hexLen := if hasTerm then hex.length - 1 else hex.length
  let firstByte : UInt8 := if hasTerm then 0x20 else 0
  -- The first place is read for an odd number of nibbles only, and written in any case.
  let first ← hex[0]?
  if hexLen % 2 = 1 then
    let .inl first := first | none
    let hex ← packNibbles hexLen 1 1 hex
    return (hex.set 0 (.inr (firstByte ||| 0x10 ||| first.byte)), hexLen / 2 + 1)
  else
    let hex ← packNibbles hexLen 1 0 hex
    return (hex.set 0 (.inr firstByte), hexLen / 2 + 1)

def digit (n : Fin 16) : Nibble := n.castSucc

/-- Digits, with or without the terminator. -/
def hexKey (nibbles : List (Fin 16)) (term : Bool) : HexKey :=
  nibbles.map digit ++ if term then [terminator] else []

variable {nibbles rest : List (Fin 16)} {first : Option (Fin 16)} {term : Bool}

/-- The first nibble of an odd number of them goes with the flags. -/
theorem exists_pairs (nibbles : List (Fin 16))
    : ∃ first rest, nibbles = Option.toList first ++ rest ∧ rest.length % 2 = 0 := by
  rcases Nat.mod_two_eq_zero_or_one nibbles.length with even | odd
  · exact ⟨none, nibbles, rfl, even⟩
  · rcases nibbles with _ | ⟨first, rest⟩
    · cases odd
    · rw [List.length_cons] at odd
      exact ⟨some first, rest, rfl, by omega⟩

theorem hasTerm_hexKey (nibbles : List (Fin 16)) (term : Bool)
    : hasTerm (hexKey nibbles term) = term := by
  cases term with
  | true => simp [hasTerm, hexKey]
  | false =>
    apply decide_eq_false
    intro last
    obtain ⟨n, -, isTerm⟩ := List.mem_map.mp (List.mem_of_getLast? (by simpa [hexKey] using last))
    exact Fin.castSucc_ne_last n isTerm

def flagByte (first : Option (Fin 16)) (term : Bool) : UInt8 :=
  (if term then 0x20 else 0) ||| first.elim 0 fun n => 0x10 ||| (digit n).byte

/-- A key is packed behind its flag byte, which holds a first odd nibble. -/
theorem hexToCompact_hexKey (even : rest.length % 2 = 0)
    : hexToCompact (hexKey (first.toList ++ rest) term)
      = flagByte first term :: decodeNibbles (rest.map digit) := by
  have body : (if term then (hexKey (first.toList ++ rest) term).dropLast
      else hexKey (first.toList ++ rest) term) = (first.toList ++ rest).map digit := by
    cases term <;> simp [hexKey]
  simp only [hexToCompact, hasTerm_hexKey, body, flagByte]
  rcases first with _ | first
  · rcases rest with _ | ⟨n, rest⟩
    · simp [decodeNibbles]
    · have even : ¬ (rest.length + 1) % 2 = 1 := by simpa using even
      simp [even]
  · simp [UInt8.or_assoc, show (rest.length + 1) % 2 = 1 by omega]

/-- Packed nibbles are unpacked again. -/
theorem nibbles_decodeNibbles (even : rest.length % 2 = 0)
    : (decodeNibbles (rest.map digit)).flatMap (fun b => [highNibble b, lowNibble b])
      = rest.map digit := by
  have pack : ∀ a b : Fin 16,
      highNibble ((digit a).byte <<< 4 ||| (digit b).byte) = digit a
      ∧ lowNibble ((digit a).byte <<< 4 ||| (digit b).byte) = digit b := by decide +kernel
  induction rest using List.twoStepInduction with
  | nil => rfl
  | singleton => cases even
  | cons_cons a b rest ih =>
    rw [List.length_cons, List.length_cons] at even
    simp [decodeNibbles, pack a b, ih (by omega)]

/-- A compact key is read back. -/
theorem compactToHex_hexToCompact (nibbles : List (Fin 16)) (term : Bool)
    : compactToHex (hexToCompact (hexKey nibbles term)) = hexKey nibbles term := by
  obtain ⟨first, rest, rfl, even⟩ := exists_pairs nibbles
  rw [hexToCompact_hexKey even, compactToHex, keybytesToHex, List.flatMap_cons,
    nibbles_decodeNibbles even]
  have flags : ∀ (term : Bool) (n : Fin 16),
      (highNibble (flagByte (some n) term)).val = 2 * term.toNat + 1
      ∧ lowNibble (flagByte (some n) term) = digit n := by decide +kernel
  rcases first with _ | n
  · cases term <;> simp [flagByte, hexKey, highNibble, List.dropLast_cons_of_ne_nil]
  · cases term <;> simp [flags, hexKey, List.dropLast_cons_of_ne_nil]

/-- A key is read back from its nibbles. -/
theorem hexToKeybytes_keybytesToHex (str : Bytes)
    : hexToKeybytes (keybytesToHex str) = some str := by
  have pack (b : UInt8) : (highNibble b).byte <<< 4 ||| (lowNibble b).byte = b := by
    have all : ∀ n : Fin 256, (highNibble (UInt8.ofNat n)).byte <<< 4
        ||| (lowNibble (UInt8.ofNat n)).byte = UInt8.ofNat n := by decide +kernel
    simpa using all ⟨b.toNat, b.toNat_lt⟩
  have nibbles : (str.flatMap fun b => [highNibble b, lowNibble b]).length % 2 = 0
      ∧ decodeNibbles (str.flatMap fun b => [highNibble b, lowNibble b]) = str := by
    induction str with
    | nil => exact ⟨rfl, rfl⟩
    | cons b str ih => exact ⟨by simp; omega, by simp [decodeNibbles, pack, ih.2]⟩
  have term : hasTerm (keybytesToHex str) = true := by simp [hasTerm, keybytesToHex]
  rw [hexToKeybytes, term]
  simp [keybytesToHex, nibbles]

/-- The loop packs what stands from `ni` on behind the places before `bi`. What it writes stands
before everything that is still to be read.
-/
theorem packNibbles_eq (nibbles : HexKey) {hex tail : List Cell} (bi ni : Nat)
    (input : hex.drop ni = nibbles.map .inl ++ tail) (even : nibbles.length % 2 = 0)
    (behind : bi < ni + 2)
    : ∃ packed, packNibbles (ni + nibbles.length) bi ni hex = some packed
      ∧ packed.take (bi + nibbles.length / 2)
        = hex.take bi ++ (decodeNibbles nibbles).map .inr := by
  induction nibbles using List.twoStepInduction generalizing hex bi ni with
  | nil =>
    rw [packNibbles]
    exact ⟨hex, by simp, by simp [decodeNibbles]⟩
  | singleton => cases even
  | cons_cons a b rest ih =>
    have high : hex[ni]? = some (.inl a) := by
      rw [← Nat.add_zero ni, ← List.getElem?_drop, input]
      rfl
    have low : hex[ni + 1]? = some (.inl b) := by
      rw [← List.getElem?_drop, input]
      rfl
    obtain ⟨inside, -⟩ := List.getElem?_eq_some_iff.mp low
    have inside : bi < hex.length := by omega
    rw [List.length_cons, List.length_cons] at even ⊢
    have left : (hex.set bi (.inr (a.byte <<< 4 ||| b.byte))).drop (ni + 2)
        = rest.map .inl ++ tail := by
      rw [List.drop_set_of_lt behind, ← List.drop_drop, input]
      rfl
    obtain ⟨packed, run, result⟩ := ih (bi + 1) (ni + 2) left (by omega) (by omega)
    refine ⟨packed, ?_, ?_⟩
    · rw [packNibbles, if_pos (by omega), high, low]
      simp only [inside, if_true]
      rw [show ni + (rest.length + 1 + 1) = ni + 2 + rest.length by omega, run]
    · rw [show bi + (rest.length + 1 + 1) / 2 = bi + 1 + rest.length / 2 by omega, result,
        List.take_add_one, List.take_set_of_le (le_refl bi)]
      simp [inside, decodeNibbles]

/-- The buffer holds what the other function returns. -/
theorem hexToCompactInPlace_hexKey (nonempty : hexKey nibbles term ≠ [])
    : ∃ buf binLen, hexToCompactInPlace ((hexKey nibbles term).map .inl) = some (buf, binLen)
      ∧ buf.take binLen = (hexToCompact (hexKey nibbles term)).map .inr := by
  obtain ⟨first, rest, rfl, even⟩ := exists_pairs nibbles
  rw [hexToCompact_hexKey even]
  have hexLen : (if term then (hexKey (first.toList ++ rest) term).length - 1
      else (hexKey (first.toList ++ rest) term).length) = first.toList.length + rest.length := by
    cases term <;> simp [hexKey]
  have isTerm : (hexKey (first.toList ++ rest) term).getLast? = some terminator ↔ term := by
    simpa [hasTerm] using Bool.eq_iff_iff.mp (hasTerm_hexKey (first.toList ++ rest) term)
  obtain ⟨packed, run, result⟩ : ∃ packed, _ ∧ _ :=
    packNibbles_eq (rest.map digit) 1 first.toList.length
      (show ((hexKey (first.toList ++ rest) term).map .inl).drop _ = _ by simp [hexKey]; rfl)
      (by simpa) (by omega)
  have start : ∀ n ∈ first, (hexKey (first.toList ++ rest) term).head? = some (digit n) := by
    rintro n rfl
    rfl
  generalize hexKey (first.toList ++ rest) term = hex at *
  obtain ⟨n, left, rfl⟩ := List.exists_cons_of_ne_nil nonempty
  refine ⟨packed.set 0 (.inr (flagByte first term)), rest.length / 2 + 1, ?_, ?_⟩
  · rw [List.length_map] at run
    simp only [hexToCompactInPlace, List.getLast?_map, Option.map_eq_some_iff, List.length_map]
    rcases first with _ | first
    · simp_all [flagByte]
    · obtain rfl : n = digit first := by simpa using start first rfl
      simp_all [flagByte, UInt8.or_assoc, show (1 + rest.length) % 2 = 1 by omega]
      omega
  · rw [List.length_map] at result
    rw [List.take_set, Nat.add_comm, result]
    rfl

/-- Every key with something in it: its compact form can be turned back, is the same when it is
built in place, and belongs to no other key. Key bytes can be turned back as well.
-/
theorem keys_inverse
    : (∀ nibbles term, hexKey nibbles term ≠ [] →
        compactToHex (hexToCompact (hexKey nibbles term)) = hexKey nibbles term
        ∧ (∃ buf binLen, hexToCompactInPlace ((hexKey nibbles term).map .inl) = some (buf, binLen)
          ∧ buf.take binLen = (hexToCompact (hexKey nibbles term)).map .inr)
        ∧ ∀ nibbles' term',
          hexToCompact (hexKey nibbles' term') = hexToCompact (hexKey nibbles term) →
          hexKey nibbles' term' = hexKey nibbles term)
      ∧ ∀ str, hexToKeybytes (keybytesToHex str) = some str := by
  refine ⟨fun nibbles term nonempty => ⟨compactToHex_hexToCompact nibbles term,
    hexToCompactInPlace_hexKey nonempty, ?_⟩, hexToKeybytes_keybytesToHex⟩
  intro nibbles' term' same
  rw [← compactToHex_hexToCompact nibbles', same, compactToHex_hexToCompact]

/-- An odd number of nibbles with a terminator. -/
theorem keys_inverse_odd
    : compactToHex (hexToCompact (hexKey [1, 2, 3] true)) = hexKey [1, 2, 3] true :=
  (keys_inverse.1 [1, 2, 3] true (by decide)).1

end GoBinacoin.MerkleTrie
