import GoBinacoin.Rlp.Typed

/-! Integers and byte arrays are RLP strings: each of their decoders accepts what `Bytes`
accepts, restricted to the strings their writers produce.
-/

namespace GoBinacoin.Rlp

open BigEndian Program

variable {kind : Kind} {size : Nat} {s next : Stream} {b : Bytes}

namespace Stream

variable (run : s.kind = (.ok (kind, size), next))
include run

/-- The kind ahead is kept until it is used. -/
theorem kind_again : next.kind = (.ok (kind, size), next) := by
  have ran := run
  unfold Stream.kind at run
  split at run
  · split at run
    · cases run
    · cases run
      exact ran
  · split at run
    · cases run
    · simp only at run
      split at run
      · cases run
      · rename_i noError
        cases run
        simp [Stream.kind, noError]

theorem bytes_kind : next.bytes = s.bytes := by
  simp only [bytes, run, kind_again run]

theorem list_kind : next.list = s.list := by
  simp only [list, run, kind_again run]

omit run

theorem bytes_consumed (ready : s.Ready) (run : s.bytes = (.ok b, next))
    : Consumed (encodeStr b) s next := by
  rcases read : s.kind with ⟨e | header, middle⟩
  · simp [bytes, read] at run
  · obtain ⟨heads, ahead, -⟩ := kind_ok ready.sound ready.bounded ready.fresh read
    rw [← bytes_kind read] at run
    exact bytes_ok ready.sound ready.bounded heads ahead run

/-- The encoding of a string is read back. -/
theorem bytes_encodeStr {b rest : Bytes} (ready : s.Ready)
    (fits : s.Fits (encodeStr b).length) (input : s.r = encodeStr b ++ rest)
    : ∃ next, s.bytes = (.ok b, next) := by
  obtain ⟨next, run, -⟩ : ∃ next, decodeInterface 1 s = (.ok (.str b), next) ∧ next.r = rest :=
    decodeInterface_str ready fits input
  simp only [decodeInterface] at run
  split at run
  · cases run
  · simp only [decodeListSlice] at run
    split at run
    · cases run
    · unfold endList at run
      split at run <;> cases run
    · simp only [decodeSliceElems] at run
      cases run
  · rename_i middle _ read
    rw [bytes_kind read] at run
    split at run
    · cases run
    · rename_i found left bytes
      cases run
      exact ⟨_, bytes⟩

/-- The end of the list is all that a reading method can meet at the end of a list. -/
theorem kind_atEnd (ready : s.Ready) (atEnd : s.listLimit = some 0)
    : s.kind = (.error .eol, s) := by
  simp [kind, ready.fresh, atEnd]

theorem readFull_zero (sound : s.Sound)
    : s.readFull 0 = (.ok [], { s with kindAhead := none }) := by
  have fits : s.Fits 0 := fun limit _ => Nat.zero_le limit
  rw [readFull_eq sound fits (Nat.zero_le _)]
  simp [sound.advance_zero]

theorem readFull_one (s : Stream)
    : s.readFull 1
      = match s.readByte with
        | (.error e, next) => (.error e, next)
        | (.ok byte, next) => (.ok [byte], next) := by
  unfold readFull readByte
  rcases s.willRead 1 with ⟨e | done, next⟩
  · rfl
  · rcases input : next.r with _ | ⟨byte, rest⟩
    · cases next
      simp_all
    · simp [input]

end Stream

theorem low_iff {byte : UInt8} : byte < 128 ↔ byte.toNat < 128 := by
  rw [UInt8.lt_iff_toNat_lt]
  rfl

theorem ofBE_singleton (byte : UInt8) : ofBE [byte] = byte.toNat := by
  simp [ofBE]

/-- Two or more digits without a leading zero denote at least 256. -/
theorem le_ofBE (long : 2 ≤ b.length) (nonzero : b.head? ≠ some 0) : 256 ≤ ofBE b := by
  match b, long with
  | byte :: rest, long =>
    have lower := pow_le_ofBE rest (show byte ≠ 0 by simpa using nonzero)
    have width : 1 ≤ rest.length := by simpa using long
    calc 256 = 256 ^ 1 := rfl
      _ ≤ 256 ^ rest.length := Nat.pow_le_pow_right (by decide) width
      _ ≤ _ := lower

/-- The digits of a numeral without a leading zero; zero has none. -/
def minimalBE (n : Nat) : Bytes := if n = 0 then [] else toBE (byteLen n) n

theorem ofBE_minimalBE (n : Nat) : ofBE (minimalBE n) = n := by
  unfold minimalBE
  split
  · rename_i zero
    simp [zero]
  · rw [ofBE_toBE, Nat.mod_eq_of_lt (lt_pow_byteLen n)]

theorem minimalBE_head (n : Nat) : (minimalBE n).head? ≠ some 0 := by
  unfold minimalBE
  split
  · simp
  · rename_i nonzero
    obtain ⟨byte, rest, numeral, leading⟩ := toBE_byteLen_head (Nat.pos_of_ne_zero nonzero)
    simpa [numeral] using leading

/-- Digits without leading zero are minimal. -/
theorem minimalBE_ofBE (leading : b.head? ≠ some 0) : minimalBE (ofBE b) = b := by
  match b, leading with
  | [], _ => rfl
  | byte :: rest, leading =>
    have nonzero : byte ≠ 0 := by simpa using leading
    have positive : ofBE (byte :: rest) ≠ 0 := by
      have lower := pow_le_ofBE rest nonzero
      have power : 0 < 256 ^ rest.length := Nat.pow_pos (by decide)
      omega
    rw [minimalBE, if_neg positive, toBE_byteLen_ofBE rest nonzero]

theorem minimalBE_length {n width : Nat} (small : n < 256 ^ width) (positive : 0 < width)
    : (minimalBE n).length ≤ width := by
  unfold minimalBE
  split
  · simp
  · rw [length_toBE]
    exact byteLen_le positive small

/-- What a method that expects a string finds: no value, a list, a byte, or a string, of which
all bytes can be read or not.
-/
theorem Stream.kind_cases (ready : s.Ready)
    : (∃ e middle, s.kind = (.error e, middle))
      ∨ (∃ size middle, s.kind = (.ok (.list, size), middle))
      ∨ (∃ size middle, s.kind = (.ok (.byte, size), middle))
      ∨ ∃ size middle, s.kind = (.ok (.string, size), middle) ∧ middle.Sound
        ∧ ((∃ e left, middle.readFull size = (.error e, left))
          ∨ ∃ b left, size = b.length ∧ middle.readFull b.length = (.ok b, left)) := by
  rcases read : s.kind with ⟨e | ⟨_ | _ | _, size⟩, middle⟩
  · simp
  · simp
  · obtain ⟨heads, -, -⟩ := kind_ok ready.sound ready.bounded ready.fresh read
    have sound := heads.after.sound ready.sound
    refine .inr (.inr (.inr ⟨size, middle, rfl, sound, ?_⟩))
    rcases full : middle.readFull size with ⟨e | b, left⟩
    · exact .inl ⟨e, left, rfl⟩
    · obtain rfl := readFull_length sound full
      exact .inr ⟨b, left, rfl, full⟩
  · simp

/-- A big integer is a string without leading zero. -/
theorem Stream.bigInt_ok_iff {n : Nat} (ready : s.Ready)
    : s.bigInt = (.ok n, next)
      ↔ ∃ b, s.bytes = (.ok b, next) ∧ b.head? ≠ some 0 ∧ n = ofBE b := by
  have accepted {buffer : Bytes} {left : Stream}
      : setBytes buffer left = (.ok n, next)
        ↔ left = next ∧ buffer.head? ≠ some 0 ∧ n = ofBE buffer := by
    unfold setBytes
    split
    · simp_all
    · simp_all [eq_comm, and_comm]
  rcases kind_cases ready with ⟨e, middle, read⟩ | ⟨size, middle, read⟩ | ⟨size, middle, read⟩
    | ⟨size, middle, read, sound, ⟨e, left, full⟩ | ⟨buffer, left, rfl, full⟩⟩
  · simp [bigInt, bytes, read]
  · simp [bigInt, bytes, read]
  · simp [bigInt, bytes, read, accepted]
  · have nonempty : size ≠ 0 := by
      rintro rfl
      simp [readFull_zero sound] at full
    simp [bigInt, bytes, read, full, nonempty]
  · rcases buffer with _ | ⟨first, rest⟩
    · simp [bigInt, bytes, read, readFull_zero sound, accepted]
    · -- One byte is always among the sizes for which the check is made.
      have single : (first :: rest).length ≤ 32 ∧ (first :: rest).length = 1 ∧ first < 128
          ↔ (first :: rest).length = 1 ∧ first < 128 :=
        ⟨fun both => both.2, fun both => ⟨by omega, both⟩⟩
      have nonempty : (first :: rest).length ≠ 0 := Nat.succ_ne_zero _
      simp only [bigInt, bytes, read, full, nonempty, if_false, List.head?_cons, Option.any_some,
        decide_eq_true_eq, single]
      split <;> simp [accepted]

/-- `readUint` reads a buffer and refuses a leading zero where there are more digits. -/
theorem Stream.readUint_eq_readFull (size : Nat) (sound : s.Sound)
    : s.readUint size
      = match s.readFull size with
        | (.error e, next) => (.error e, next)
        | (.ok b, next) =>
          if 2 ≤ size ∧ b.head? = some 0 then (.error .canonSize, next)
          else (.ok (ofBE b), next) := by
  match size with
  | 0 => simp [readUint, readFull_zero sound]
  | 1 =>
    simp only [readUint, readFull_one]
    rcases s.readByte with ⟨e | byte, next⟩
    · rfl
    · simp [ofBE_singleton]
  | size + 2 =>
    simp only [readUint]
    rcases s.readFull (size + 2) with ⟨e | b, next⟩
    · rfl
    · simp

/-- The checks of `uint` on the digits are those of `Bytes`, and one for a leading zero. -/
theorem digits_ok_iff (b : Bytes)
    : ¬ (2 ≤ b.length ∧ b.head? = some 0) ∧ ¬ (b.length > 0 ∧ ofBE b < 128)
      ↔ ¬ (b.length = 1 ∧ b.head?.any (fun byte => byte < 128) = true) ∧ b.head? ≠ some 0 := by
  match b with
  | [] => simp
  | [byte] =>
    have zero : byte = 0 → byte.toNat < 128 := fun same => same ▸ by decide
    simp only [List.length_singleton, Nat.not_ofNat_le_one, false_and, not_false_eq_true,
      true_and, gt_iff_lt, Nat.zero_lt_one, ofBE_singleton, List.head?_cons, Option.any_some,
      decide_eq_true_eq, low_iff, ne_eq, Option.some.injEq]
    exact ⟨fun high => ⟨high, fun same => high (zero same)⟩, fun both => both.1⟩
  | first :: second :: rest =>
    have large := fun nonzero => le_ofBE (b := first :: second :: rest) (by simp) nonzero
    simp only [List.head?_cons, Option.some.injEq, ne_eq] at large ⊢
    constructor
    · rintro ⟨leading, -⟩
      exact ⟨by simp, fun zero => leading ⟨by simp, zero⟩⟩
    · rintro ⟨-, nonzero⟩
      have lower := large nonzero
      exact ⟨fun both => nonzero both.2, by omega⟩

/-- An unsigned integer is a string of at most eight digits without leading zero. -/
theorem Stream.uint_ok_iff {n : Nat} (ready : s.Ready)
    : s.uint 64 = (.ok n, next)
      ↔ ∃ b, s.bytes = (.ok b, next) ∧ b.length ≤ 8 ∧ b.head? ≠ some 0 ∧ n = ofBE b := by
  rcases kind_cases ready with ⟨e, middle, read⟩ | ⟨size, middle, read⟩ | ⟨size, middle, read⟩
    | ⟨size, middle, read, sound, ⟨e, left, full⟩ | ⟨buffer, left, rfl, full⟩⟩
  · simp [uint, bytes, read]
  · simp [uint, bytes, read]
  · by_cases zero : middle.byteval = 0
    · simp [uint, bytes, read, zero]
    · simp [uint, bytes, read, zero, ofBE_singleton, eq_comm, and_comm]
  · simp only [uint, bytes, read, full, readUint_eq_readFull size sound]
    constructor
    · intro run
      split at run
      · cases run
      · split at run <;> rename_i adjusted <;> cases adjusted <;> cases run
    · rintro ⟨b, bytes, -⟩
      cases bytes
  · have checks := digits_ok_iff buffer
    simp only [uint, bytes, read, full, readUint_eq_readFull buffer.length sound]
    constructor
    · intro run
      split at run
      · cases run
      · rename_i narrow
        split at run
        · cases run
        · cases run
        · rename_i found
          split at found
          · cases found
          · rename_i leading
            cases found
            split at run
            · cases run
            · rename_i single
              cases run
              obtain ⟨notSingle, nonzero⟩ := checks.mp ⟨leading, single⟩
              exact ⟨buffer, by simp only [notSingle, if_false], by omega, nonzero, rfl⟩
    · rintro ⟨b, bytes, narrow, nonzero, rfl⟩
      split at bytes
      · cases bytes
      · rename_i notSingle
        cases bytes
        obtain ⟨leading, single⟩ := checks.mpr ⟨notSingle, nonzero⟩
        simp only [leading, single, if_false]
        rw [if_neg (by omega)]

/-- An array is a string of its length. -/
theorem decodeByteArray_ok_iff {typ : String} {length : Nat}
    {v : { b : Bytes // b.length = length }} (ready : s.Ready)
    : decodeByteArray typ length s = (.ok v, next) ↔ s.bytes = (.ok v.1, next) := by
  obtain ⟨b, rfl⟩ := v
  rcases Stream.kind_cases ready with ⟨e, middle, read⟩ | ⟨size, middle, read⟩
    | ⟨size, middle, read⟩
    | ⟨size, middle, read, sound, ⟨e, left, full⟩ | ⟨buffer, left, rfl, full⟩⟩
  · simp [decodeByteArray, Stream.bytes, read]
  · simp [decodeByteArray, Stream.bytes, read]
  · simp only [decodeByteArray, Stream.bytes, read]
    constructor
    · intro run
      split_ifs at run <;> cases run
      rfl
    · intro bytes
      cases bytes
      rfl
  · simp only [decodeByteArray, Stream.bytes, read, full]
    constructor
    · intro run
      split_ifs at run
      · cases run
      · cases run
      · have same : b.length = size := by omega
        simp [same, full] at run
    · intro bytes
      cases bytes
  · by_cases same : b.length = buffer.length
    · simp only [decodeByteArray, Stream.bytes, read, same, full, lt_irrefl, if_false]
      split <;> simp
    · simp only [decodeByteArray, Stream.bytes, read, full]
      constructor
      · intro run
        split_ifs at run <;> first | cases run | omega
      · intro bytes
        split at bytes <;> cases bytes
        exact absurd rfl same

end GoBinacoin.Rlp
