import GoBinacoin.Rlp.TypedCodec

/-! What the generated writers write, and that encoding and decoding by type are inverse to
each other.
-/

namespace GoBinacoin.Rlp

open BigEndian Program EncBuf

theorem EncBuf.encodeString_nil (w : EncBuf)
    : w.encodeString [] = { w with str := w.str ++ [0x80] } := by
  simp [encodeString, singleByte, encodeStringHeader]

variable {b : Bytes} {n : Nat} {i : Int}

theorem EncBuf.encodeString_short {w : EncBuf} (notSingle : singleByte b = false)
    (short : b.length < 56)
    : w.encodeString b = { w with str := w.str ++ (0x80 + UInt8.ofNat b.length) :: b } := by
  simp [encodeString, notSingle, encodeStringHeader, short]

theorem singleByte_of_two_le (long : 2 ≤ b.length) : singleByte b = false := by
  match b, long with
  | _ :: _ :: _, _ => rfl

/-- A small integer is written as the string of its digits. -/
theorem EncBuf.encodeUint_eq {i : Nat} (w : EncBuf) (small : i < 2 ^ 64)
    : w.encodeUint i = w.encodeString (minimalBE i) := by
  unfold encodeUint
  split
  · rename_i zero
    rw [zero, minimalBE, if_pos rfl, encodeString_nil]
  · rename_i nonzero
    have minimal : minimalBE i = toBE (byteLen i) i := by rw [minimalBE, if_neg nonzero]
    split
    · rename_i low
      have one : byteLen i = 1 := by simp [byteLen, Nat.log_of_lt (show i < 256 by omega)]
      have digit : toBE 1 i = [UInt8.ofNat i] := by simp [toBE]
      have single : singleByte [UInt8.ofNat i] = true := by
        rw [singleByte_singleton, decide_eq_true_eq, UInt8.lt_iff_toNat_lt, UInt8.toNat_ofNat']
        simp only [UInt8.reduceToNat]
        omega
      rw [minimal, one, digit, encodeString, if_pos single]
    · rename_i high
      have width : byteLen i ≤ 8 := byteLen_le (by decide) (by simpa using small)
      rw [putint_eq small, minimal, encodeString_short]
      · rcases two : singleByte (toBE (byteLen i) i) with _ | _
        · rfl
        have value : ofBE (toBE (byteLen i) i) = i := by
          rw [ofBE_toBE, Nat.mod_eq_of_lt (lt_pow_byteLen i)]
        obtain ⟨byte, digits⟩ := exists_of_singleByte two
        rw [digits, ofBE_singleton] at value
        rw [digits, singleByte_singleton, decide_eq_true_eq, UInt8.lt_iff_toNat_lt] at two
        simp only [UInt8.reduceToNat] at two
        omega
      · rw [length_toBE]
        omega

theorem toBE_eq_reverse (width n : Nat) : toBE width n = (lowBytes width n).reverse := by
  induction width generalizing n with
  | zero => rfl
  | succ width ih => simp [toBE, lowBytes, ih, Nat.shiftRight_eq_div_pow]

theorem length_lowBytes (rounds d : Nat) : (lowBytes rounds d).length = rounds := by
  induction rounds generalizing d with
  | zero => rfl
  | succ rounds ih => simp [lowBytes, ih]

/-- The low bytes of a number in two parts. -/
theorem lowBytes_add (first second d : Nat)
    : lowBytes (first + second) d = lowBytes first d ++ lowBytes second (d / 256 ^ first) := by
  induction first generalizing d with
  | zero => simp [lowBytes]
  | succ first ih =>
    have power : 256 ^ (first + 1) = 2 ^ 8 * 256 ^ first := by
      rw [pow_succ, Nat.mul_comm]
      norm_num
    rw [Nat.succ_add, lowBytes, lowBytes, ih, List.cons_append, Nat.shiftRight_eq_div_pow,
      Nat.div_div_eq_div_mul, power]

theorem take_lowBytes {width rounds : Nat} (d : Nat) (order : width ≤ rounds)
    : (lowBytes rounds d).take width = lowBytes width d := by
  obtain ⟨more, rfl⟩ := Nat.exists_eq_add_of_le order
  rw [lowBytes_add, List.take_left' (length_lowBytes _ _)]

/-- The low bytes of a number depend on nothing above them. -/
theorem lowBytes_mod (rounds d : Nat) : lowBytes rounds (d % 256 ^ rounds) = lowBytes rounds d := by
  induction rounds generalizing d with
  | zero => rfl
  | succ rounds ih =>
    have digit : UInt8.ofNat (d % 256 ^ (rounds + 1)) = UInt8.ofNat d := by
      rw [← UInt8.toNat_inj, UInt8.toNat_ofNat', UInt8.toNat_ofNat', pow_succ, Nat.mul_comm]
      exact Nat.mod_mul_right_mod d 256 _
    have shifted : d % 256 ^ (rounds + 1) / 256 = d / 256 % 256 ^ rounds := by
      rw [pow_succ, Nat.mul_comm, Nat.mod_mul_right_div_self]
    simp only [lowBytes, digit, Nat.shiftRight_eq_div_pow]
    rw [show 2 ^ 8 = 256 from rfl, shifted, ih]

/-- Word by word, the bytes of a number are written; induction on the words. -/
theorem flatMap_bitsLoop (rounds n : Nat)
    : (bitsLoop rounds n).flatMap (lowBytes 8)
      = lowBytes (8 * (bitsLoop rounds n).length) n := by
  induction rounds generalizing n with
  | zero => rfl
  | succ rounds ih =>
    unfold bitsLoop
    split
    · rfl
    · have word : n % 2 ^ 64 = n % 256 ^ 8 := by norm_num
      have shifted : n / 2 ^ 64 = n / 256 ^ 8 := by norm_num
      rw [List.flatMap_cons, ih, List.length_cons, Nat.mul_succ, Nat.add_comm, lowBytes_add,
        word, lowBytes_mod, shifted]

/-- The words of a number are enough for it. -/
theorem lt_pow_bitsLoop {rounds n : Nat} (small : n < 2 ^ rounds)
    : n < 256 ^ (8 * (bitsLoop rounds n).length) := by
  induction rounds generalizing n with
  | zero => simpa [bitsLoop] using small
  | succ rounds ih =>
    unfold bitsLoop
    split
    · rename_i zero
      simp [zero]
    · have rest : n / 2 ^ 64 < 2 ^ rounds := by
        rw [pow_succ] at small
        calc n / 2 ^ 64 ≤ n / 2 := Nat.div_le_div_left (by decide) (by decide)
          _ < 2 ^ rounds := Nat.div_lt_of_lt_mul (by omega)
      have bound := (Nat.div_lt_iff_lt_mul (by decide)).mp (ih rest)
      rw [List.length_cons, Nat.mul_succ, pow_add]
      exact bound.trans_eq (by norm_num)

theorem lt_two_pow_bitLen (n : Nat) : n < 2 ^ bitLen n := by
  unfold bitLen
  split
  · rename_i zero
    simp [zero]
  · exact Nat.lt_log2_self

theorem bitLen_le_iff (n k : Nat) : bitLen n ≤ k ↔ n < 2 ^ k := by
  unfold bitLen
  split
  · rename_i zero
    simp [zero]
  · rename_i nonzero
    rw [Nat.succ_le_iff, Nat.log2_lt nonzero]

/-- The length in bits, rounded up to bytes, is the length in bytes. -/
theorem bitLen_bytes (positive : 0 < n) : (bitLen n + 7) / 8 = byteLen n := by
  have nonzero : n ≠ 0 := by omega
  have lower : 2 ^ (bitLen n - 1) ≤ n := by
    rw [bitLen, if_neg nonzero, Nat.add_sub_cancel]
    exact Nat.log2_self_le nonzero
  have upper := lt_two_pow_bitLen n
  have one : 1 ≤ bitLen n := by
    rw [bitLen, if_neg nonzero]
    omega
  obtain ⟨width, same⟩ : ∃ width, (bitLen n + 7) / 8 = width + 1 :=
    Nat.exists_eq_succ_of_ne_zero (by omega)
  rw [same]
  symm
  have power (k : Nat) : 256 ^ k = 2 ^ (8 * k) := by
    rw [pow_mul]
    norm_num
  refine byteLen_eq ?_ ?_
  · calc 256 ^ width = 2 ^ (8 * width) := power width
      _ ≤ 2 ^ (bitLen n - 1) := Nat.pow_le_pow_right (by decide) (by omega)
      _ ≤ n := lower
  · calc n < 2 ^ bitLen n := upper
      _ ≤ 2 ^ (8 * (width + 1)) := Nat.pow_le_pow_right (by decide) (by omega)
      _ = 256 ^ (width + 1) := (power (width + 1)).symm

/-- The buffer `writeBigInt` fills holds the digits of the number. -/
theorem writeBigInt_buffer (positive : 0 < n)
    : (((bits n).flatMap (lowBytes 8)).take (byteLen n)).reverse = toBE (byteLen n) n := by
  have room : byteLen n ≤ 8 * (bits n).length := by
    have bound : n < 256 ^ (8 * (bits n).length) := lt_pow_bitsLoop (lt_two_pow_bitLen n)
    refine byteLen_le (Nat.pos_of_ne_zero ?_) bound
    intro none
    rw [none] at bound
    simp only [pow_zero] at bound
    omega
  have written : (bits n).flatMap (lowBytes 8) = lowBytes (8 * (bits n).length) n :=
    flatMap_bitsLoop _ _
  rw [written, take_lowBytes n room, toBE_eq_reverse]

/-- A big integer is written as the string of its digits. -/
theorem EncBuf.writeBigInt_eq (w : EncBuf) (nonneg : 0 ≤ i)
    : w.writeBigInt i = .ok (w.encodeString (minimalBE i.toNat)) := by
  unfold writeBigInt
  rw [if_neg (by omega)]
  simp only
  split
  · rename_i fits
    rw [encodeUint_eq w ((bitLen_le_iff _ _).mp fits)]
  · rename_i large
    rw [bitLen_le_iff, Nat.not_lt] at large
    have positive : 0 < i.toNat := lt_of_lt_of_le (by decide) large
    have wide : 2 ≤ byteLen i.toNat := by
      by_contra narrow
      have bound := lt_pow_byteLen i.toNat
      have power : 256 ^ byteLen i.toNat ≤ 256 ^ 1 := Nat.pow_le_pow_right (by decide) (by omega)
      omega
    have minimal : minimalBE i.toNat = toBE (byteLen i.toNat) i.toNat := by
      rw [minimalBE, if_neg positive.ne']
    have notSingle : singleByte (toBE (byteLen i.toNat) i.toNat) = false :=
      singleByte_of_two_le (by rwa [length_toBE])
    rw [bitLen_bytes positive, writeBigInt_buffer positive, minimal, encodeString,
      notSingle, length_toBE]
    simp

theorem EncBuf.writeBigInt_ok_iff {w w' : EncBuf}
    : w.writeBigInt i = .ok w' ↔ 0 ≤ i ∧ w' = w.encodeString (minimalBE i.toNat) := by
  by_cases nonneg : 0 ≤ i
  · rw [writeBigInt_eq w nonneg]
    simp [nonneg, eq_comm]
  · have negative : i < 0 := by omega
    simp [writeBigInt, negative, nonneg]

/-- An array is written as a string. -/
theorem EncBuf.writeByteArray_eq (b : Bytes) (w : EncBuf)
    : w.writeByteArray b = w.encodeString b := by
  match b with
  | [] => rw [encodeString_nil, writeByteArray]
  | [byte] =>
    simp only [writeByteArray]
    split
    · rename_i low
      have single : singleByte [byte] = true := decide_eq_true low
      simp [encodeString, single]
    · rename_i high
      have notSingle : singleByte [byte] = false := decide_eq_false high
      simp [encodeString_short notSingle]
  | first :: second :: rest => simp [writeByteArray, encodeString, singleByte]

/-- A writer of values writes what the generic writer writes for their items. -/
def Writes {α : Type} (write : α → EncBuf → Except EncodeErr EncBuf) (item : α → Item)
    (writable : α → Prop) : Prop :=
  ∀ (v : α) (w w' : EncBuf), write v w = .ok w' ↔ writable v ∧ w' = EncBuf.write (item v) w

/-- The same for what is inside a list. -/
def WritesAll {α : Type} (write : α → EncBuf → Except EncodeErr EncBuf) (items : α → List Item)
    (writable : α → Prop) : Prop :=
  ∀ (v : α) (w w' : EncBuf), write v w = .ok w' ↔ writable v ∧ w' = writeAll (items v) w

/-- The elements of a slice are written one after the other. -/
theorem Writes.elements {α : Type} {write : α → EncBuf → Except EncodeErr EncBuf}
    {item : α → Item} {writable : α → Prop} (writes : Writes write item writable)
    : WritesAll (writeElems write) (fun vs => vs.map item) (List.Forall writable) := by
  intro vs w w'
  induction vs generalizing w with
  | nil => simp [writeElems, writeAll, eq_comm]
  | cons v vs ih =>
    rw [writeElems, except_bind_ok]
    simp only [List.map_cons, writeAll, List.forall_cons, ih, writes v, and_assoc]
    constructor
    · rintro ⟨middle, first, rfl, others, rfl⟩
      exact ⟨first, others, rfl⟩
    · rintro ⟨first, others, rfl⟩
      exact ⟨_, first, rfl, others, rfl⟩

/-- A list is written if its elements are. -/
theorem WritesAll.list {α : Type} {write : α → EncBuf → Except EncodeErr EncBuf}
    {items : α → List Item} {writable : α → Prop} (writes : WritesAll write items writable)
    : Writes (fun v w => do
        let w' ← write v w.list.1
        return w'.listEnd w.list.2) (fun v => .list (items v)) writable := by
  intro v w w'
  rw [except_bind_ok]
  simp only [EncBuf.write]
  constructor
  · rintro ⟨inside, written, returned⟩
    obtain ⟨isWritable, rfl⟩ := (writes _ _ _).mp written
    exact ⟨isWritable, (Except.ok.inj returned).symm⟩
  · rintro ⟨isWritable, rfl⟩
    exact ⟨_, (writes _ _ _).mpr ⟨isWritable, rfl⟩, rfl⟩

theorem EncBuf.writeNil_eq (nilKind : Kind) (w : EncBuf)
    : w.writeNil nilKind = write (if nilKind = .string then .str [] else .list []) w := by
  unfold writeNil
  split
  · rw [write, encodeString_nil]
  · simp only [write, writeAll]

mutual
/-- The writer of a type writes the items of writable values, by induction on the type. -/
theorem writes_makeWriter (t : Ty) : Writes (makeWriter t) t.item t.Writable := by
  match t with
  | .uint64 =>
    intro i w w'
    have small : UInt64.toNat i < 2 ^ 64 := UInt64.toNat_lt i
    simp only [makeWriter, Ty.item, Ty.Writable, EncBuf.write, true_and,
      EncBuf.encodeUint_eq w small, Except.ok.injEq, eq_comm]
  | .bigInt =>
    intro i w w'
    simp only [makeWriter, Ty.item, Ty.Writable, EncBuf.write]
    exact EncBuf.writeBigInt_ok_iff
  | .bytes =>
    intro b w w'
    simp only [makeWriter, Ty.item, Ty.Writable, EncBuf.write, true_and, Except.ok.injEq, eq_comm]
  | .byteArray name length =>
    intro b w w'
    simp only [makeWriter, Ty.item, Ty.Writable, EncBuf.write, true_and, Except.ok.injEq,
      EncBuf.writeByteArray_eq, eq_comm]
  | .nilPtr elem =>
    intro ptr w w'
    rcases ptr with _ | v
    · have empty : emptyItem (defaultNilKind elem)
          = if defaultNilKind elem = .string then .str [] else .list [] := by
        cases elem <;> rfl
      simp only [makeWriter, Ty.item, Ty.Writable, true_and, Except.ok.injEq, empty,
        EncBuf.writeNil_eq, eq_comm]
    · simp only [makeWriter, Ty.item, Ty.Writable]
      exact writes_makeWriter elem v w w'
  | .slice name elem => exact (writes_makeWriter elem).elements.list
  | .struct name fields => exact (writesAll_writeFields fields).list

/-- The writers of the fields of a struct, by induction on the fields. -/
theorem writesAll_writeFields (fields : Fields)
    : WritesAll (writeFields fields) fields.items fields.Writable := by
  match fields with
  | .nil =>
    intro v w w'
    simp only [writeFields, Fields.items, Fields.Writable, writeAll, true_and, Except.ok.injEq,
      eq_comm]
  | .cons name ty rest =>
    intro v w w'
    obtain ⟨v, vs⟩ := v
    have first := writes_makeWriter ty
    have others := writesAll_writeFields rest
    simp only [writeFields, except_bind_ok, Fields.items, Fields.Writable, writeAll]
    constructor
    · rintro ⟨middle, written, rest⟩
      obtain ⟨isWritable, rfl⟩ := (first _ _ _).mp written
      obtain ⟨areWritable, rfl⟩ := (others _ _ _).mp rest
      exact ⟨⟨isWritable, areWritable⟩, rfl⟩
    · rintro ⟨⟨isWritable, areWritable⟩, rfl⟩
      exact ⟨_, (first _ _ _).mpr ⟨isWritable, rfl⟩, (others _ _ _).mpr ⟨areWritable, rfl⟩⟩
end

section Whole

variable {t : Ty} {v : t.Val} {b : Bytes}

/-- A writer for an item gives the encoding of the item. -/
theorem encodeBytesWith_ok_iff {write : EncBuf → Except EncodeErr EncBuf} {item : Item}
    {writable : Prop} (writes : ∀ w, write {} = .ok w ↔ writable ∧ w = EncBuf.write item {})
    (small : item.encode.length < 2 ^ 64)
    : encodeBytesWith write = .ok b ↔ writable ∧ b = item.encode := by
  have bytes : (EncBuf.write item {}).toBytes = item.encode := encodeToBytes_eq item small
  rw [encodeBytesWith, except_bind_ok]
  constructor
  · rintro ⟨w, written, returned⟩
    obtain ⟨isWritable, rfl⟩ := (writes w).mp written
    exact ⟨isWritable, (Except.ok.inj returned).symm.trans bytes⟩
  · rintro ⟨isWritable, rfl⟩
    exact ⟨_, (writes _).mpr ⟨isWritable, rfl⟩, congrArg Except.ok bytes⟩

theorem encodeBytesOf_ok_iff (small : (t.item v).encode.length < 2 ^ 64)
    : encodeBytesOf t v = .ok b ↔ t.Writable v ∧ b = (t.item v).encode :=
  encodeBytesWith_ok_iff (writes_makeWriter t v {}) small

/-- The encoding of a value is appended to the output. -/
theorem encodeOnto_ok_iff {out : Bytes} (small : (t.item v).encode.length < 2 ^ 64)
    : encodeOnto t v out = .ok b ↔ t.Writable v ∧ b = out ++ (t.item v).encode := by
  have written : (write (t.item v) {}).toWriter out = out ++ (t.item v).encode := by
    obtain ⟨f, encodes, writes⟩ := write_eq (t.item v) small
    rw [writes, append_empty, encodes.toWriter]
  rw [encodeOnto, encodeOntoWith, except_bind_ok]
  constructor
  · rintro ⟨w, made, returned⟩
    obtain ⟨isWritable, rfl⟩ := (writes_makeWriter t _ _ _).mp made
    exact ⟨isWritable, (Except.ok.inj returned).symm.trans written⟩
  · rintro ⟨isWritable, rfl⟩
    exact ⟨_, (writes_makeWriter t _ _ _).mpr ⟨isWritable, rfl⟩, congrArg Except.ok written⟩

/-- Naming the type in errors changes no result. -/
theorem Codes.decodeAs {α : Type} {decode : Decoder α} {item : α → Item} {normal : α → Prop}
    (codes : Codes decode item normal) (name : String)
    : Codes (Stream.decodeAs name decode) item normal := by
  have okIff {s next : Stream} {a : α}
      : Stream.decodeAs name decode s = (.ok a, next) ↔ decode s = (.ok a, next) := by
    unfold Stream.decodeAs
    split <;> simp_all
  refine ⟨fun ready run => codes.sound ready (okIff.mp run), ?_, ?_, ?_⟩
  · intro s rest a ready isNormal fits input
    obtain ⟨next, run⟩ := codes.complete ready isNormal fits input
    exact ⟨next, okIff.mpr run⟩
  · intro s next
    rw [← codes.eol_iff]
    unfold Stream.decodeAs
    split <;> simp_all
  · intro s next header read
    simp only [Stream.decodeAs, codes.peeks read]

theorem codes_decode (safe : t.safe = true) : Codes (Stream.decode t) t.item t.Writable :=
  (codes_makeDecoder t safe).decodeAs t.name

/-- Nothing may follow the value. -/
theorem decodeBytesWith_ok_iff {ε α : Type} {more : ε} {decode : Prog Stream ε α} {a : α}
    : decodeBytesWith more decode b = .ok a
      ↔ ∃ next, decode (Stream.ofBytes b (uint64 b.length)) = (.ok a, next) ∧ next.r = [] := by
  unfold decodeBytesWith
  split
  · rename_i failed
    simp [failed]
  · rename_i found left decoded
    simp only [decoded, Prod.mk.injEq, Except.ok.injEq]
    split
    · rename_i trailing
      constructor
      · intro run
        cases run
      · rintro ⟨next, ⟨-, rfl⟩, none⟩
        simp [none] at trailing
    · rename_i atEnd
      constructor
      · intro run
        cases run
        exact ⟨left, ⟨rfl, rfl⟩, List.length_eq_zero_iff.mp (by omega)⟩
      · rintro ⟨next, ⟨rfl, -⟩, -⟩
        rfl

theorem Stream.ofBytes_fits (n : Nat) : (ofBytes b (uint64 b.length)).Fits n := by
  simp [Fits, listLimit, ofBytes]

section Decoders

variable {α : Type} {decode : Decoder α} {item : α → Item} {normal : α → Prop} {a : α}
  {more : Failure} (codes : Codes decode item normal)

include codes

/-- Only the encoding of a value is decoded to it. -/
theorem Codes.decodeBytes_ok (small : b.length < 2 ^ 64)
    (run : decodeBytesWith more decode b = .ok a)
    : normal a ∧ (item a).encode = b := by
  obtain ⟨next, decoded, atEnd⟩ := decodeBytesWith_ok_iff.mp run
  obtain ⟨isNormal, consumed⟩ := codes.sound (Stream.ofBytes_ready small) decoded
  have input := consumed.input
  rw [atEnd, List.append_nil] at input
  exact ⟨isNormal, input.symm⟩

/-- The encoding of a value is decoded. -/
theorem Codes.decodeBytes_encode (isNormal : normal a) (small : (item a).encode.length < 2 ^ 64)
    : decodeBytesWith more decode (item a).encode = .ok a := by
  have ready := Stream.ofBytes_ready small
  obtain ⟨next, decoded⟩ :=
    codes.complete ready isNormal (Stream.ofBytes_fits _) (List.append_nil _).symm
  obtain ⟨-, consumed⟩ := codes.sound ready decoded
  refine decodeBytesWith_ok_iff.mpr ⟨next, decoded, ?_⟩
  exact List.append_cancel_left (consumed.input.symm.trans (List.append_nil _).symm)

end Decoders

theorem decodeBytesInto_ok (safe : t.safe = true) (small : b.length < 2 ^ 64)
    (run : decodeBytesInto t b = .ok v)
    : t.Writable v ∧ (t.item v).encode = b :=
  (codes_decode safe).decodeBytes_ok small run

theorem decodeBytesInto_encode (safe : t.safe = true) (isNormal : t.Writable v)
    (small : (t.item v).encode.length < 2 ^ 64)
    : decodeBytesInto t (t.item v).encode = .ok v :=
  (codes_decode safe).decodeBytes_encode isNormal small

end Whole

/-- The codec of a type is a bijection between the values that decoding can give and the inputs that
it accepts.
-/
theorem typed_codec_inverse {t : Ty} (safe : t.safe = true)
    : (∀ v, t.Writable v → (t.item v).encode.length < 2 ^ 64
        → ∃ b, encodeBytesOf t v = .ok b ∧ decodeBytesInto t b = .ok v)
      ∧ ∀ b v, b.length < 2 ^ 64 → decodeBytesInto t b = .ok v → encodeBytesOf t v = .ok b := by
  constructor
  · intro v isNormal small
    exact ⟨_, (encodeBytesOf_ok_iff small).mpr ⟨isNormal, rfl⟩,
      decodeBytesInto_encode safe isNormal small⟩
  · intro b v short run
    obtain ⟨isNormal, rfl⟩ := decodeBytesInto_ok safe short run
    exact (encodeBytesOf_ok_iff short).mpr ⟨isNormal, rfl⟩

/-- A struct with a pointer and a slice of integers. -/
def recordTy : Ty :=
  .struct "T" (.cons "A" .uint64 (.cons "B" (.nilPtr (.byteArray "[2]uint8" 2))
    (.cons "C" (.slice "[]*big.Int" .bigInt) .nil)))

/-- The pointer is nil, and an integer does not fit into 64 bits. -/
def recordVal : recordTy.Val :=
  ((1024 : UInt64), (none : Option { b : Bytes // b.length = 2 }), ([7, 2 ^ 70] : List Int), ())

theorem typed_codec_inverse_record
    : ∃ b, encodeBytesOf recordTy recordVal = .ok b ∧ decodeBytesInto recordTy b = .ok recordVal :=
  have nonneg : (0 : Int) ≤ 7 ∧ (0 : Int) ≤ 2 ^ 70 := by decide
  (typed_codec_inverse rfl).1 recordVal ⟨trivial, trivial, nonneg, trivial⟩ (by decide +kernel)

end GoBinacoin.Rlp
