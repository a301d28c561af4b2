import GoBinacoin.Rlp.StreamReads

/-! The header of the value ahead: `readKind` and `Kind` accept exactly the headers the
encoder writes.
-/

namespace GoBinacoin.Rlp

open BigEndian Stream

/-- The header of a value of the given kind. A single byte is its own header. -/
def headOf (kind : Kind) (size : Nat) (byte : UInt8) : Bytes :=
  match kind with
  | .byte => [byte]
  | .string => header 0x80 0xB7 size
  | .list => header 0xC0 0xF7 size

/-- `next` stands behind the header of a value of the given kind and size. -/
structure Stream.Heads (s : Stream) (kind : Kind) (size : Nat) (next : Stream) : Prop where
  input : s.r = headOf kind size next.byteval ++ next.r
  after : After (headOf kind size next.byteval).length s next
  small : size < 2 ^ 64
  single : kind = .byte → size = 0 ∧ next.byteval < 0x80

theorem header_pos (smalltag largetag : UInt8) (size : Nat)
    : 0 < (header smalltag largetag size).length := by
  unfold header
  split <;> simp

theorem headOf_pos (kind : Kind) (size : Nat) (byte : UInt8)
    : 0 < (headOf kind size byte).length := by
  cases kind <;> simp [headOf, header_pos]

variable {b tag smalltag largetag : UInt8} {kind found : Kind}

theorem toNat_sub_tag (above : ¬ b < tag) : (b - tag).toNat = b.toNat - tag.toNat :=
  UInt8.toNat_sub_of_le _ _ (UInt8.not_lt.mp above)

theorem tag_add_sub (tag b : UInt8) : tag + UInt8.ofNat (b - tag).toNat = b := by
  rw [UInt8.ofNat_toNat, UInt8.add_comm, UInt8.sub_add_cancel]

variable {s next : Stream} {size : Nat} {kind : Kind} {rest : Bytes} {byte : UInt8}

/-- A long size is canonical. -/
theorem Stream.readLongSize_ok {digits : Nat}
    (sound : s.Sound) (positive : 0 < digits) (narrow : digits ≤ 8)
    (run : s.readLongSize kind digits = (found, size, none, next))
    : found = kind ∧ 56 ≤ size ∧ size < 2 ^ 64 ∧ digits = byteLen size
      ∧ s.r = toBE (byteLen size) size ++ next.r ∧ After digits s next := by
  unfold readLongSize at run
  split at run
  · cases run
  · rename_i value middle read
    obtain ⟨numeral, width, input, denotes, leading, after⟩ := readUint_ok sound positive read
    simp only [Prod.mk.injEq] at run
    obtain ⟨rfl, rfl, canonical, rfl⟩ := run
    have large : 56 ≤ value := by
      by_contra below
      simp [Nat.lt_of_not_le below] at canonical
    have shape : ∃ byte rest, numeral = byte :: rest ∧ byte ≠ 0 := by
      rcases numeral with _ | ⟨byte, rest⟩
      · simp at width; omega
      refine ⟨byte, rest, rfl, ?_⟩
      rintro rfl
      rcases leading with single | nonzero
      · have empty : rest = [] := by
          subst single
          simpa using width
        subst empty
        simp [ofBE] at denotes
        omega
      · exact nonzero rfl
    obtain ⟨byte, rest, rfl, nonzero⟩ := shape
    have canonicalNumeral := toBE_byteLen_ofBE rest nonzero
    rw [← denotes] at canonicalNumeral
    have lengths := congrArg List.length canonicalNumeral
    rw [length_toBE, width] at lengths
    refine ⟨rfl, large, ?_, lengths.symm, by rw [canonicalNumeral, input], after⟩
    calc
      value < 256 ^ digits := by
        rw [denotes, ← width]
        exact ofBE_lt _
      _ ≤ 256 ^ 8 := Nat.pow_le_pow_right (by decide) narrow
      _ = 2 ^ 64 := by decide

/-- A long header: the tag byte was read, and its size is canonical. -/
private theorem Stream.longHeads {middle : Stream} (sound : s.Sound) (bounded : s.r.length < 2 ^ 64)
    (run : middle.readLongSize kind (b - largetag).toNat = (found, size, none, next))
    (head : ∀ byte, headOf kind size byte = header smalltag largetag size) (notByte : kind ≠ .byte)
    (above : largetag.toNat < b.toNat) (below : b.toNat ≤ largetag.toNat + 8)
    (tagRead : s.r = b :: middle.r) (tagAfter : After 1 s middle)
    : found = kind ∧ s.Heads kind size next := by
  have tagOrder : ¬ b < largetag := by
    intro order
    have := UInt8.lt_iff_toNat_lt.mp order
    omega
  have digits := toNat_sub_tag tagOrder
  obtain ⟨same, large, small, width, input, after⟩ :=
    readLongSize_ok (tagAfter.sound sound) (by omega) (by omega) run
  have headEq : headOf kind size next.byteval = b :: toBE (byteLen size) size := by
    rw [head, header, if_neg (by omega), ← width, tag_add_sub]
  refine ⟨same, ⟨?_, ?_, small, fun isByte => absurd isByte notByte⟩⟩
  · rw [headEq, tagRead, input]
    rfl
  · rw [headEq]
    have total := tagAfter.trans after bounded
    rw [width] at total
    simpa [Nat.add_comm] using total

/-- A header that is read is canonical. -/
theorem Stream.readKind_ok (sound : s.Sound)
    (bounded : s.r.length < 2 ^ 64) (run : s.readKind = (kind, size, none, next))
    : s.Heads kind size next := by
  unfold readKind at run
  split at run
  · cases run
  · rename_i b middle read
    obtain ⟨input, after, -⟩ := readByte_ok sound read
    have reset : After 1 s { middle with byteval := 0 } :=
      ⟨after.enough, after.r, after.remaining, after.stack, after.limited⟩
    have shortHeads {tag largetag : UInt8} {kind : Kind} (above : ¬ b < tag)
        (below : b.toNat < tag.toNat + 56)
        (head : ∀ byte, headOf kind (b - tag).toNat byte
          = header tag largetag (b - tag).toNat)
        (notByte : kind ≠ .byte)
        : s.Heads kind (b - tag).toNat { middle with byteval := 0 } := by
      have value := toNat_sub_tag above
      have headEq : headOf kind (b - tag).toNat 0 = [b] := by
        rw [head, header, if_pos (by omega), tag_add_sub]
      refine ⟨?_, ?_, ?_, fun isByte => absurd isByte notByte⟩
      · rw [headEq, input]
        rfl
      · rw [headEq]
        exact reset
      · have := b.toNat_lt
        omega
    have le {x y : UInt8} (above : ¬ x < y) : y.toNat ≤ x.toNat :=
      Nat.le_of_not_lt fun order => above (UInt8.lt_iff_toNat_lt.mpr order)
    have lt {x y : UInt8} (below : x < y) : x.toNat < y.toNat := UInt8.lt_iff_toNat_lt.mp below
    have byteBound := b.toNat_lt
    simp only at run
    split at run
    · rename_i isByte
      cases run
      exact ⟨by simpa [headOf] using input,
        ⟨after.enough, after.r, after.remaining, after.stack, after.limited⟩, by decide,
        fun _ => ⟨rfl, isByte⟩⟩
    · rename_i aboveByte
      split at run
      · rename_i belowLong
        cases run
        have upper := lt belowLong
        exact shortHeads aboveByte (by simpa using upper) (fun _ => rfl) (by decide)
      · rename_i aboveLong
        split at run
        · rename_i belowList
          have lower := le aboveLong
          have upper := lt belowList
          obtain ⟨rfl, heads⟩ := longHeads sound bounded run (fun _ => rfl) (by decide)
            (by simp at lower ⊢; omega) (by simp at upper ⊢; omega) input reset
          exact heads
        · rename_i aboveList
          split at run
          · rename_i belowLongList
            cases run
            have upper := lt belowLongList
            exact shortHeads aboveList (by simpa using upper) (fun _ => rfl) (by decide)
          · rename_i aboveLongList
            have lower := le aboveLongList
            obtain ⟨rfl, heads⟩ := longHeads sound bounded run (fun _ => rfl) (by decide)
              (by simp at lower ⊢; omega) (by simp; omega) input reset
            exact heads

/-- What follows fits if the whole did. -/
theorem Stream.Fits.after {b c : Nat} (fits : s.Fits (b + c))
    (sound : s.Sound) (after : After b s next)
    : next.Fits c := by
  intro limit member
  rcases stack : s.stack with _ | ⟨first, outer⟩
  · simp [listLimit, after.stack, stack, advance] at member
  have room := fits first (by simp [listLimit, stack])
  have small := sound.bounded first (by simp [stack])
  simp only [listLimit, after.stack, stack, advance, List.head?_cons,
    Option.mem_def, Option.some.injEq] at member
  rw [← member, subU64_of_le (by omega) small]
  omega

theorem Stream.Fits.mono {b c : Nat} (fits : s.Fits c) (order : b ≤ c) : s.Fits b :=
  fun limit member => order.trans (fits limit member)

theorem toNat_tag_add {n : Nat} (room : tag.toNat + n < 256)
    : (tag + UInt8.ofNat n).toNat = tag.toNat + n := by
  rw [UInt8.toNat_add, UInt8.toNat_ofNat']
  omega

theorem add_sub_tag (tag b : UInt8) : tag + b - tag = b := by
  rw [UInt8.add_comm, UInt8.add_sub_cancel]

theorem byteLen_le_eight (small : size < 2 ^ 64) : byteLen size ≤ 8 :=
  byteLen_le (by decide) (by simpa using small)

/-- A tag byte is read before anything else is known about the header. -/
private theorem Stream.readTag (sound : s.Sound) (fits : s.Fits 1) (input : s.r = b :: rest)
    : ∃ middle,
        s.readByte = (.ok b, middle) ∧ middle.r = rest
        ∧ After 1 s { middle with byteval := 0 } := by
  refine ⟨_, readByte_eq sound fits input, rfl, ?_⟩
  exact ⟨by simp [input], by simp [input], rfl, rfl, rfl⟩

theorem Stream.readLongSize_eq (kind : Kind)
    (sound : s.Sound) (large : 56 ≤ size) (fits : s.Fits (byteLen size))
    (input : s.r = toBE (byteLen size) size ++ rest)
    : ∃ next,
        s.readLongSize kind (byteLen size) = (kind, size, none, next) ∧ next.r = rest
        ∧ After (byteLen size) s next := by
  obtain ⟨next, read, left, after, -⟩ := readUint_eq sound large fits input
  refine ⟨next, ?_, left, after⟩
  simp [readLongSize, read, Nat.not_lt.mpr large]

theorem Stream.readKind_byte (sound : s.Sound)
    (fits : s.Fits 1) (input : s.r = byte :: rest) (single : byte < 0x80)
    : ∃ next,
        s.readKind = (.byte, 0, none, next) ∧ next.r = rest ∧ After 1 s next := by
  obtain ⟨middle, read, left, after⟩ := readTag sound fits input
  refine ⟨{ middle with byteval := byte }, ?_, left,
    ⟨after.enough, after.r, after.remaining, after.stack, after.limited⟩⟩
  simp [readKind, read, single]

/-- The two tag ranges of a kind: with the size, and with the number of its digits. -/
structure Tags (kind : Kind) (smalltag largetag : UInt8) : Prop where
  head : ∀ size byte, headOf kind size byte = header smalltag largetag size
  smallRoom : smalltag.toNat + 56 ≤ 256
  largeRoom : largetag.toNat + 8 < 256
  short : ∀ {s middle : Stream} {b : UInt8}, s.readByte = (.ok b, middle) →
    smalltag.toNat ≤ b.toNat → b.toNat < smalltag.toNat + 56 →
    s.readKind = (kind, (b - smalltag).toNat, none, { middle with byteval := 0 })
  long : ∀ {s middle : Stream} {b : UInt8}, s.readByte = (.ok b, middle) →
    largetag.toNat < b.toNat → b.toNat ≤ largetag.toNat + 8 →
    s.readKind = readLongSize kind (b - largetag).toNat { middle with byteval := 0 }

/-- The tags of strings. -/
theorem stringTags : Tags .string 0x80 0xB7 where
  head _ _ := rfl
  smallRoom := by decide
  largeRoom := by decide
  short read lower upper := by
    simp only [UInt8.reduceToNat] at lower upper
    simp only [readKind, read, UInt8.lt_iff_toNat_lt, UInt8.reduceToNat]
    rw [if_neg (by omega), if_pos (by omega)]
  long read lower upper := by
    simp only [UInt8.reduceToNat] at lower upper
    simp only [readKind, read, UInt8.lt_iff_toNat_lt, UInt8.reduceToNat]
    rw [if_neg (by omega), if_neg (by omega), if_pos (by omega)]

/-- The tags of lists. -/
theorem listTags : Tags .list 0xC0 0xF7 where
  head _ _ := rfl
  smallRoom := by decide
  largeRoom := by decide
  short read lower upper := by
    simp only [UInt8.reduceToNat] at lower upper
    simp only [readKind, read, UInt8.lt_iff_toNat_lt, UInt8.reduceToNat]
    rw [if_neg (by omega), if_neg (by omega), if_neg (by omega), if_pos (by omega)]
  long read lower upper := by
    simp only [UInt8.reduceToNat] at lower upper
    simp only [readKind, read, UInt8.lt_iff_toNat_lt, UInt8.reduceToNat]
    rw [if_neg (by omega), if_neg (by omega), if_neg (by omega), if_neg (by omega)]

/-- A canonical header is read back. -/
theorem Stream.readKind_header (tags : Tags kind smalltag largetag) (sound : s.Sound)
    (bounded : s.r.length < 2 ^ 64) (small : size < 2 ^ 64)
    (fits : s.Fits (header smalltag largetag size).length)
    (input : s.r = header smalltag largetag size ++ rest)
    : ∃ next,
        s.readKind = (kind, size, none, next) ∧ next.r = rest
        ∧ After (header smalltag largetag size).length s next := by
  have smallRoom := tags.smallRoom
  have largeRoom := tags.largeRoom
  by_cases short : size < 56
  · rw [header, if_pos short] at fits input ⊢
    obtain ⟨middle, read, left, after⟩ := readTag sound fits input
    have tag := toNat_tag_add (show smalltag.toNat + size < 256 by omega)
    have value : (UInt8.ofNat size).toNat = size := by
      rw [UInt8.toNat_ofNat']
      omega
    have run := tags.short read (by omega) (by omega)
    rw [add_sub_tag, value] at run
    exact ⟨_, run, left, after⟩
  · have narrow := byteLen_le_eight small
    have positive := byteLen_pos size
    rw [header, if_neg short] at fits input ⊢
    rw [List.length_cons, length_toBE, Nat.add_comm] at fits ⊢
    obtain ⟨middle, read, left, tagAfter⟩ := readTag sound (fits.mono (by omega)) input
    have tag := toNat_tag_add (show largetag.toNat + byteLen size < 256 by omega)
    have value : (UInt8.ofNat (byteLen size)).toNat = byteLen size := by
      rw [UInt8.toNat_ofNat']
      omega
    have run := tags.long read (by omega) (by omega)
    rw [add_sub_tag, value] at run
    obtain ⟨next, sizeRead, left, after⟩ :=
      readLongSize_eq kind (tagAfter.sound sound) (Nat.le_of_not_lt short)
        (fits.after sound tagAfter) left
    exact ⟨next, run.trans sizeRead, left, tagAfter.trans after bounded⟩

theorem Stream.readKind_headOf
    (sound : s.Sound) (bounded : s.r.length < 2 ^ 64) (small : size < 2 ^ 64)
    (single : kind = .byte → size = 0 ∧ byte < 0x80) (fits : s.Fits (headOf kind size byte).length)
    (input : s.r = headOf kind size byte ++ rest)
    : ∃ next,
        s.readKind = (kind, size, none, next) ∧ next.r = rest
        ∧ After (headOf kind size byte).length s next := by
  cases kind with
  | byte =>
    obtain ⟨rfl, low⟩ := single rfl
    exact readKind_byte sound fits input low
  | string => exact readKind_header stringTags sound bounded small fits input
  | list => exact readKind_header listTags sound bounded small fits input

/-- The header of the value ahead was read without an error. -/
structure Stream.Ahead (kind : Kind) (size : Nat) (s : Stream) : Prop where
  kindAhead : s.kindAhead = some kind
  sizeAhead : s.sizeAhead = size
  kinderr : s.kinderr = none

theorem Stream.kind_ahead (ahead : s.Ahead kind size) : s.kind = (.ok (kind, size), s) := by
  simp [Stream.kind, ahead.kindAhead, ahead.sizeAhead, ahead.kinderr]

variable (sound : s.Sound) (bounded : s.r.length < 2 ^ 64) (fresh : s.kindAhead = none)
include sound bounded fresh

/-- The kind ahead comes from a canonical header, and its content is there. -/
theorem Stream.kind_ok (run : s.kind = (.ok (kind, size), next))
    : s.Heads kind size next ∧ next.Ahead kind size ∧ size ≤ next.r.length := by
  simp only [Stream.kind, fresh] at run
  split at run
  · cases run
  · rcases read : s.readKind with ⟨found, foundSize, kinderr, middle⟩
    simp only [read] at run
    split at run
    · cases run
    · rename_i noError
      cases run
      obtain ⟨rfl, sizeFits⟩ : kinderr = none ∧ middle.sizeError s.listLimit size = none := by
        simpa [Option.or_eq_none_iff] using noError
      have heads := Stream.readKind_ok sound bounded read
      have middleSound := heads.after.sound sound
      refine ⟨⟨heads.input, ?_, heads.small, heads.single⟩, ⟨rfl, rfl, ?_⟩, ?_⟩
      · have after := heads.after
        exact ⟨after.enough, after.r, after.remaining, after.stack, after.limited⟩
      · simpa using sizeFits
      · show size ≤ middle.r.length
        by_contra excess
        have tooLarge : size > middle.remaining := by
          rw [middleSound.remaining]
          omega
        simp only [Stream.sizeError, middleSound.limited, tooLarge] at sizeFits
        split at sizeFits <;> simp at sizeFits

/-- A canonical header with its content is recognised. -/
theorem Stream.kind_eq (single : kind = .byte → size = 0 ∧ byte < 0x80)
    (fits : s.Fits ((headOf kind size byte).length + size))
    (input : s.r = headOf kind size byte ++ rest) (enough : size ≤ rest.length)
    : ∃ next,
        s.kind = (.ok (kind, size), next) ∧ s.Heads kind size next ∧ next.Ahead kind size
        ∧ next.r = rest := by
  have small : size < 2 ^ 64 := by
    have lengths := congrArg List.length input
    rw [List.length_append] at lengths
    omega
  obtain ⟨middle, read, left, after⟩ :=
    Stream.readKind_headOf sound bounded small single (fits.mono (by omega)) input
  have notEnd : s.listLimit ≠ some 0 := by
    intro atEnd
    have room := fits 0 atEnd
    have positive := headOf_pos kind size byte
    omega
  have middleSound := after.sound sound
  have noError : middle.sizeError s.listLimit size = none := by
    have inList : s.listLimit.any (fun limit => size > limit) = false := by
      rcases limit : s.listLimit with _ | limit'
      · rfl
      · have room := fits limit' limit
        simp only [Option.any_some, decide_eq_false_iff_not]
        omega
    have inInput : ¬ size > middle.remaining := by
      rw [middleSound.remaining, left]
      omega
    simp [Stream.sizeError, inList, inInput]
  have run : s.kind = (.ok (kind, size), { middle with
      kindAhead := some kind, sizeAhead := size, kinderr := none }) := by
    simp [Stream.kind, fresh, notEnd, read, noError]
  obtain ⟨heads, ahead, -⟩ := Stream.kind_ok sound bounded fresh run
  exact ⟨_, run, heads, ahead, left⟩

end GoBinacoin.Rlp
