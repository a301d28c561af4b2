import GoBinacoin.Rlp.Decode
import GoBinacoin.Rlp.Weave

/-! RLP encodings and generic values correspond one to one: every encoding is decoded to its
value, and nothing but encodings is decoded at all. The accepted byte strings are also given
as a grammar, independent of encoder and decoder.
-/

namespace GoBinacoin.Rlp

open BigEndian Stream

variable {s : Stream} {size : Nat} {b rest : Bytes} {outer : List Nat} {smalltag largetag : UInt8}

theorem Stream.bytes_byte (ahead : s.Ahead .byte size)
    : s.bytes = (.ok [s.byteval], { s with kindAhead := none }) := by
  simp [bytes, kind_ahead ahead]

/-- A string behind its header is read as it is. -/
theorem Stream.bytes_string (ahead : s.Ahead .string b.length)
    (sound : s.Sound) (fits : s.Fits b.length) (input : s.r = b ++ rest)
    (notSingle : singleByte b = false)
    : ∃ next, s.bytes = (.ok b, next) ∧ next.r = rest := by
  have canonical : ¬ (b.length = 1 ∧ b.head?.any (fun byte => byte < 128) = true) := by
    rintro ⟨one, low⟩
    match b, one with
    | [byte], _ =>
      rw [singleByte_singleton, decide_eq_false_iff_not] at notSingle
      exact notSingle (by simpa using low)
  have read := readFull_eq sound fits (by simp [input])
  simp only [input, List.take_left, List.drop_left] at read
  have run : s.bytes = (.ok b, { s with
      kindAhead := none, stack := advance b.length s.stack,
      remaining := s.remaining - b.length, r := rest }) := by
    simp [bytes, kind_ahead ahead, read, canonical]
  exact ⟨_, run, rfl⟩

theorem Stream.kind_single {byte : UInt8} (ready : s.Ready) (single : singleByte [byte] = true)
    (fits : s.Fits (encodeStr [byte]).length) (input : s.r = encodeStr [byte] ++ rest)
    : ∃ middle, s.kind = (.ok (.byte, 0), middle) ∧ s.Heads .byte 0 middle
      ∧ middle.Ahead .byte 0 ∧ middle.r = rest := by
  have own : encodeStr [byte] = headOf .byte 0 byte := by simp [encodeStr, single, headOf]
  rw [singleByte_singleton, decide_eq_true_eq] at single
  rw [own] at fits input
  exact kind_eq ready.sound ready.bounded ready.fresh (fun _ => ⟨rfl, single⟩) fits input
    (Nat.zero_le _)

theorem Stream.kind_headed {kind : Kind} {encoding content : Bytes} (ready : s.Ready)
    (notByte : kind ≠ .byte) (encoded : encoding = headOf kind content.length 0 ++ content)
    (fits : s.Fits encoding.length) (input : s.r = encoding ++ rest)
    : ∃ middle, s.kind = (.ok (kind, content.length), middle) ∧ s.Heads kind content.length middle
      ∧ middle.Ahead kind content.length ∧ middle.r = content ++ rest := by
  rw [encoded, List.length_append] at fits
  rw [encoded, List.append_assoc] at input
  exact kind_eq ready.sound ready.bounded ready.fresh (fun isByte => absurd isByte notByte)
    fits input (by simp)

theorem encodeStr_headed (notSingle : singleByte b = false)
    : encodeStr b = headOf .string b.length 0 ++ b := by
  simp [encodeStr, notSingle, headOf]

theorem encode_list (items : List Item)
    : (Item.list items).encode = headOf .list (encodeAll items).length 0 ++ encodeAll items := by
  simp [Item.encode, headOf]

/-- The encoding of a string is decoded. -/
theorem decodeInterface_str {fuel : Nat} (ready : s.Ready)
    (fits : s.Fits (encodeStr b).length) (input : s.r = encodeStr b ++ rest)
    : ∃ next, decodeInterface (fuel + 1) s = (.ok (.str b), next) ∧ next.r = rest := by
  rcases single : singleByte b with _ | _
  · obtain ⟨middle, kind, heads, ahead, left⟩ :=
      kind_headed ready (by decide) (encodeStr_headed single) fits input
    rw [encodeStr_headed single, List.length_append] at fits
    obtain ⟨next, bytes, behind⟩ :=
      bytes_string ahead (heads.after.sound ready.sound)
        (fits.after ready.sound heads.after) left single
    refine ⟨next, ?_, behind⟩
    simp [decodeInterface, kind, bytes]
  · obtain ⟨byte, rfl⟩ := exists_of_singleByte single
    obtain ⟨middle, kind, heads, ahead, left⟩ := kind_single ready single fits input
    have sameByte : middle.byteval = byte := by
      have both := heads.input.symm.trans input
      simpa [encodeStr, single, headOf, left] using both
    refine ⟨{ middle with kindAhead := none }, ?_, left⟩
    simp [decodeInterface, kind, bytes_byte ahead, sameByte]

theorem endList_eq (items : List Item) (stack : s.stack = 0 :: outer)
    : ∃ next, endList items s = (.ok (.list items), next) ∧ next.r = s.r := by
  have run : endList items s
      = (.ok (.list items), { s with stack := outer, kindAhead := none, sizeAhead := 0 }) := by
    simp [endList, listEnd, stack]
  exact ⟨_, run, rfl⟩

/-- A list is decoded from its elements. -/
theorem decodeListSlice_eq {decodeElems : Stream → Result (List Item)} {items : List Item}
    {s inside : Stream} (ahead : s.Ahead .list (encodeAll items).length)
    (decoded : decodeElems (s.enter (encodeAll items).length) = (.ok items, inside))
    (stack : inside.stack = 0 :: outer)
    : ∃ next, decodeListSlice decodeElems s = (.ok (.list items), next)
      ∧ (items ≠ [] → next.r = inside.r) ∧ (items = [] → next.r = s.r) := by
  simp only [decodeListSlice, list_ahead ahead]
  rcases items with _ | ⟨item, rest⟩
  · obtain ⟨next, ended, same⟩ := endList_eq [] (show (s.enter 0).stack = 0 :: _ from rfl)
    exact ⟨next, ended, fun nonempty => absurd rfl nonempty, fun _ => same⟩
  have positive := item.encode_pos
  cases size : (encodeAll (item :: rest)).length with
  | zero =>
    rw [encodeAll_cons, List.length_append] at size
    omega
  | succ size' =>
    obtain ⟨next, ended, same⟩ := endList_eq (item :: rest) stack
    rw [size] at decoded
    refine ⟨next, ?_, fun _ => same, fun empty => by cases empty⟩
    simp only [decoded, ended]

theorem Stream.After.listLimit_eq {n m : Nat} {s next : Stream} (after : After n s next)
    (sound : s.Sound) (limit : s.listLimit = some (n + m))
    : next.listLimit = some m := by
  rcases stack : s.stack with _ | ⟨first, outer⟩
  · simp [listLimit, stack] at limit
  · have same : first = n + m := by simpa [listLimit, stack] using limit
    have small := sound.bounded first (by simp [stack])
    rw [listLimit, after.stack, stack, advance, List.head?_cons, subU64_of_le (by omega) small]
    exact congrArg some (by omega)

mutual
/-- The encoding of a value is decoded, with fuel for the whole input. -/
theorem decodeInterface_encode {fuel : Nat} {s : Stream} {rest : Bytes} (v : Item)
    (ready : s.Ready) (fits : s.Fits v.encode.length) (input : s.r = v.encode ++ rest)
    (enough : 2 * s.r.length + 1 ≤ fuel)
    : ∃ next, decodeInterface fuel s = (.ok v, next) ∧ next.r = rest := by
  match fuel, v with
  | 0, _ => omega
  | fuel + 1, .str b =>
    rw [Item.encode] at fits input
    exact decodeInterface_str ready fits input
  | fuel + 1, .list items =>
    obtain ⟨middle, kind, heads, ahead, left⟩ :=
      kind_headed ready (by decide) (encode_list items) fits input
    obtain ⟨enterReady, shorter⟩ := heads.enter_ready ready
    obtain ⟨inside, decoded, behind⟩ :=
      decodeSliceElems_encodeAll items enterReady rfl left
        (show 2 * (middle.enter _).r.length + 2 ≤ fuel by omega)
    have consumed := (outcomes fuel).items_ok enterReady decoded
    have stack : inside.stack = 0 :: advance (encodeAll items).length middle.stack := by
      rw [consumed.after.stack]
      simp [enter, advance, subU64_of_le (Nat.le_refl _) heads.small]
    obtain ⟨next, run, nonempty, empty⟩ := decodeListSlice_eq ahead decoded stack
    refine ⟨next, by simp only [decodeInterface, kind, run], ?_⟩
    by_cases none : items = []
    · rw [empty none, left, none, encodeAll_nil, List.nil_append]
    · rw [nonempty none, behind]

/-- The elements of a list, by induction on the list. -/
theorem decodeSliceElems_encodeAll {fuel : Nat} {s : Stream} {rest : Bytes}
    (items : List Item) (ready : s.Ready) (limit : s.listLimit = some (encodeAll items).length)
    (input : s.r = encodeAll items ++ rest) (enough : 2 * s.r.length + 2 ≤ fuel)
    : ∃ next, decodeSliceElems fuel s = (.ok items, next) ∧ next.r = rest := by
  match fuel, items with
  | 0, _ => omega
  | 1, _ => omega
  | fuel + 2, [] =>
    have atEnd : s.kind = (.error .eol, s) := by
      simp [kind, ready.fresh, limit]
    exact ⟨s, by simp [decodeSliceElems, decodeInterface, atEnd], by simpa using input⟩
  | fuel + 2, item :: items =>
    rw [encodeAll_cons, List.length_append] at limit
    rw [encodeAll_cons, List.append_assoc] at input
    have fits : s.Fits item.encode.length := by
      intro found member
      have same : found = item.encode.length + (encodeAll items).length := by
        simpa [limit] using member.symm
      omega
    obtain ⟨middle, first, left⟩ :=
      decodeInterface_encode item ready fits input (show _ ≤ fuel + 1 by omega)
    have consumed := (outcomes _).item_ok ready first
    have middleLimit := consumed.after.listLimit_eq ready.sound limit
    have shorter : middle.r.length < s.r.length := by
      have positive := item.encode_pos
      rw [consumed.input, List.length_append]
      omega
    obtain ⟨next, others, behind⟩ :=
      decodeSliceElems_encodeAll items (consumed.ready ready) middleLimit left
        (show _ ≤ fuel + 1 by omega)
    refine ⟨next, ?_, behind⟩
    rw [decodeSliceElems]
    simp only [first, others]
end

/-- What is encoded is decoded. -/
theorem decodeBytes_encode {v : Item} (small : v.encode.length < 2 ^ 64)
    : decodeBytes v.encode = .ok v := by
  have ready := ofBytes_ready small
  have fits : (ofBytes v.encode (uint64 v.encode.length)).Fits v.encode.length := by
    simp [Fits, listLimit, ofBytes]
  obtain ⟨next, run, left⟩ :=
    decodeInterface_encode v ready fits (List.append_nil _).symm
      (show 2 * v.encode.length + 1 ≤ 2 * v.encode.length + 2 by omega)
  simp [decodeBytes, run, left]

/-- The digits of a size that does not fit into the tag: as few as possible. -/
structure LongSize (digits : Bytes) (size : Nat) : Prop where
  long : 56 ≤ size
  narrow : digits.length ≤ 8
  noLeadingZero : digits.head? ≠ some 0
  value : ofBE digits = size

inductive Canonical : Bytes → Prop where
  | byte {b : UInt8} (low : b < 0x80) : Canonical [b]
  | shortString {b : Bytes} (short : b.length < 56) (notSingle : ∀ x, b = [x] → ¬ x < 0x80)
    : Canonical ((0x80 + UInt8.ofNat b.length) :: b)
  | longString {digits b : Bytes} (size : LongSize digits b.length)
    : Canonical ((0xB7 + UInt8.ofNat digits.length) :: (digits ++ b))
  | shortList {items : List Bytes} (elements : ∀ item ∈ items, Canonical item)
    (short : items.flatten.length < 56)
    : Canonical ((0xC0 + UInt8.ofNat items.flatten.length) :: items.flatten)
  | longList {digits : Bytes} {items : List Bytes} (elements : ∀ item ∈ items, Canonical item)
    (size : LongSize digits items.flatten.length)
    : Canonical ((0xF7 + UInt8.ofNat digits.length) :: (digits ++ items.flatten))

theorem header_of_short (short : size < 56)
    : header smalltag largetag size = [smalltag + UInt8.ofNat size] := by
  simp [header, short]

/-- A long size is written with the digits it was read from. -/
theorem LongSize.header_eq {digits : Bytes} (long : LongSize digits size)
    : header smalltag largetag size = (largetag + UInt8.ofNat digits.length) :: digits := by
  have large := long.long
  have value := long.value
  match digits, long.noLeadingZero with
  | [], _ =>
    simp at value
    omega
  | byte :: rest, nonzero =>
    have numeral := toBE_byteLen_ofBE rest (show byte ≠ 0 by simpa using nonzero)
    rw [value] at numeral
    have width : byteLen size = (byte :: rest).length := by
      rw [← numeral, length_toBE]
    rw [header, if_neg (by omega), numeral, width]

theorem longSize_toBE (large : 56 ≤ size) (small : size < 2 ^ 64)
    : LongSize (toBE (byteLen size) size) size := by
  refine ⟨large, ?_, ?_, ?_⟩
  · rw [length_toBE]
    exact byteLen_le (by decide) (by simpa using small)
  · obtain ⟨byte, rest, numeral, nonzero⟩ := toBE_byteLen_head (show 0 < size by omega)
    simpa [numeral] using nonzero
  · rw [ofBE_toBE, Nat.mod_eq_of_lt (lt_pow_byteLen size)]

theorem encodeAll_eq_flatten (items : List Item)
    : encodeAll items = (items.map Item.encode).flatten := by
  induction items with
  | nil => simp
  | cons item rest ih => simp [ih]

/-- Parts that are encodings, one by one, are the encodings of one list of values. -/
theorem exists_encodeAll {parts : List Bytes} (each : ∀ part ∈ parts, ∃ v : Item, v.encode = part)
    : ∃ items, encodeAll items = parts.flatten := by
  induction parts with
  | nil => exact ⟨[], by simp⟩
  | cons part rest ih =>
    obtain ⟨v, encoded⟩ := each part (by simp)
    obtain ⟨items, others⟩ := ih (fun other member => each other (by simp [member]))
    exact ⟨v :: items, by simp [encoded, others]⟩

/-- Canonical byte strings are encodings; induction on the grammar. -/
theorem Canonical.exists_encode (canonical : Canonical b) : ∃ v : Item, v.encode = b := by
  induction canonical with
  | @byte b low =>
    have single : singleByte [b] = true := by
      rw [singleByte_singleton, decide_eq_true low]
    exact ⟨.str [b], by simp [Item.encode, encodeStr, single]⟩
  | @shortString b short notSingle =>
    refine ⟨.str b, ?_⟩
    simp [Item.encode, encodeStr, singleByte_eq_false notSingle, header_of_short short]
  | @longString digits b size =>
    have notSingle : singleByte b = false := by
      apply singleByte_eq_false
      rintro x rfl
      exact absurd size.long (by simp)
    exact ⟨.str b, by simp [Item.encode, encodeStr, notSingle, size.header_eq]⟩
  | shortList _ short ih =>
    obtain ⟨items, encoded⟩ := exists_encodeAll ih
    exact ⟨.list items, by simp only [Item.encode, encoded, header_of_short short]; rfl⟩
  | longList _ size ih =>
    obtain ⟨items, encoded⟩ := exists_encodeAll ih
    exact ⟨.list items, by simp only [Item.encode, encoded, size.header_eq]; rfl⟩

mutual
/-- What is encoded is canonical. -/
theorem Item.encode_canonical (v : Item) (small : v.encode.length < 2 ^ 64)
    : Canonical v.encode := by
  match v with
  | .str b =>
    rw [Item.encode] at small ⊢
    rcases single : singleByte b with _ | _
    · have encoded : encodeStr b = header 0x80 0xB7 b.length ++ b := by simp [encodeStr, single]
      rw [encoded, List.length_append] at small
      rw [encoded]
      by_cases short : b.length < 56
      · rw [header_of_short short]
        refine .shortString short ?_
        rintro x rfl low
        rw [singleByte_singleton, decide_eq_false_iff_not] at single
        exact single low
      · have size := longSize_toBE (Nat.le_of_not_lt short) (by omega)
        rw [size.header_eq]
        exact .longString size
    · match b, single with
      | [x], single =>
        simp only [encodeStr, single, if_true]
        rw [singleByte_singleton, decide_eq_true_eq] at single
        exact .byte single
  | .list items =>
    rw [Item.encode, List.length_append] at small
    have elements := encodeAll_canonical items (by omega)
    rw [Item.encode, encodeAll_eq_flatten]
    rw [encodeAll_eq_flatten] at small
    by_cases short : (items.map Item.encode).flatten.length < 56
    · rw [header_of_short short]
      exact .shortList elements short
    · have size := longSize_toBE (Nat.le_of_not_lt short) (by omega)
      rw [size.header_eq]
      exact .longList elements size

/-- All elements of a list are canonical. -/
theorem encodeAll_canonical (items : List Item) (small : (encodeAll items).length < 2 ^ 64)
    : ∀ part ∈ items.map Item.encode, Canonical part := by
  match items with
  | [] => simp
  | item :: rest =>
    rw [encodeAll_cons, List.length_append] at small
    intro part member
    rcases List.mem_cons.mp member with same | later
    · exact same ▸ item.encode_canonical (by omega)
    · exact encodeAll_canonical rest (by omega) part later
end

/-- `DecodeBytes` and `EncodeToBytes` are inverse to each other, and the byte strings that
`DecodeBytes` accepts are exactly the canonical ones.
-/
theorem decodeBytes_encodeToBytes_inverse
    : (∀ v : Item, v.encode.length < 2 ^ 64 → decodeBytes (encodeToBytes v) = .ok v)
      ∧ (∀ (b : Bytes) (v : Item), b.length < 2 ^ 64 → decodeBytes b = .ok v →
          encodeToBytes v = b)
      ∧ (∀ (b b' : Bytes) (v : Item), b.length < 2 ^ 64 → b'.length < 2 ^ 64 →
          decodeBytes b = .ok v → decodeBytes b' = .ok v → b = b')
      ∧ (∀ b : Bytes, b.length < 2 ^ 64 →
          ((∃ v, decodeBytes b = .ok v) ↔ Canonical b)
          ∧ (¬ Canonical b → ∃ e, e ≠ .outOfFuel ∧ decodeBytes b = .error e)) := by
  have inverse {b : Bytes} {v : Item} (small : b.length < 2 ^ 64) (run : decodeBytes b = .ok v)
      : encodeToBytes v = b := by
    have encoded := decodeBytes_ok small run
    rw [encodeToBytes_eq v (encoded ▸ small), encoded]
  have accepted {b : Bytes} (small : b.length < 2 ^ 64)
      : (∃ v, decodeBytes b = .ok v) ↔ Canonical b := by
    constructor
    · rintro ⟨v, run⟩
      have encoded := decodeBytes_ok small run
      exact encoded ▸ v.encode_canonical (encoded ▸ small)
    · intro canonical
      obtain ⟨v, rfl⟩ := canonical.exists_encode
      exact ⟨v, decodeBytes_encode small⟩
  refine ⟨?_, ?_, ?_, ?_⟩
  · intro v small
    rw [encodeToBytes_eq v small, decodeBytes_encode small]
  · intro b v small run
    exact inverse small run
  · intro b b' v small small' run run'
    rw [← inverse small run, ← inverse small' run']
  · intro b small
    refine ⟨accepted small, fun malformed => ?_⟩
    rcases run : decodeBytes b with e | v
    · refine ⟨e, ?_, rfl⟩
      rintro rfl
      exact decodeBytes_ne_outOfFuel small run
    · exact absurd ((accepted small).mp ⟨v, run⟩) malformed

/-- A list of two strings goes through, and a single byte under a header does not. -/
theorem decodeBytes_encodeToBytes_inverse_dog
    : decodeBytes (encodeToBytes (.list [.str [0x64, 0x6F, 0x67], .str []]))
        = .ok (.list [.str [0x64, 0x6F, 0x67], .str []])
      ∧ ∃ e, e ≠ .outOfFuel ∧ decodeBytes [0x81, 0x00] = .error e := by
  refine ⟨decodeBytes_encodeToBytes_inverse.1 _ (by decide +kernel), ?_⟩
  refine (decodeBytes_encodeToBytes_inverse.2.2.2 [0x81, 0x00] (by decide)).2 fun canonical => ?_
  have accepted :=
    (decodeBytes_encodeToBytes_inverse.2.2.2 [0x81, 0x00] (by decide)).1.mpr canonical
  obtain ⟨v, run⟩ := accepted
  have failed : (decodeBytes [0x81, 0x00]).isOk = false := by decide +kernel
  rw [run] at failed
  cases failed

end GoBinacoin.Rlp
