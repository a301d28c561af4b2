import GoBinacoin.Rlp.Values

/-! `EncodeToReader`: the encoding handed out piece by piece, into buffers of any size. A reader
may stop in the middle of a header or of string data. Its invariant is which bytes remain.
-/

namespace GoBinacoin.Rlp

open EncBuf Program

structure EncReader where
  /-- The buffer we are reading from; nil at the end of input. -/
  buf : Option EncBuf
  lhpos : Nat := 0
  strpos : Nat := 0
  /-- The next piece to be read. -/
  piece : Option Bytes := none

namespace EncReader

def next (r : EncReader) : Option Bytes × EncReader :=
  match r.buf, r.piece with
  | none, _ => (none, r)
  | some _, some piece => (some piece, r)
  | some buf, none =>
      match buf.lheads[r.lhpos]? with
      | some head =>
          if head.offset - r.strpos > 0 then
            (some ((buf.str.take head.offset).drop r.strpos), { r with strpos := head.offset })
          else
            (some head.encode, { r with lhpos := r.lhpos + 1 })
      | none =>
          if r.strpos < buf.str.length then
            (some (buf.str.drop r.strpos), { r with strpos := buf.str.length })
          else
            (none, r)

/-- The loop of `Read` with the room left in the caller's buffer. The result says whether the
end of input was reported.
-/
def read : Nat → Nat → Bytes → EncReader → Option ((Bytes × Bool) × EncReader)
  | 0, _, _, _ => none
  | fuel + 1, room, b, r =>
      match r.next with
      | (none, r) => some ((b, true), { r with buf := none, piece := none })
      | (some piece, r) =>
          let nn := min room piece.length
          let b := b ++ piece.take nn
          if nn < piece.length then some ((b, false), { r with piece := some (piece.drop nn) })
          else read fuel (room - nn) b { r with piece := none }

/-- Reads with buffers of the given sizes: all bytes read, and the last report. -/
def reads (fuel : Nat) : List Nat → Bytes × Bool → EncReader → Option (Bytes × Bool)
  | [], got, _ => some got
  | size :: sizes, got, r => do
      let ((b, eof), r) ← r.read fuel size []
      reads fuel sizes (got.1 ++ b, eof) r

/-- The bytes that were not read yet. -/
def remaining (r : EncReader) : Bytes :=
  match r.buf with
  | none => []
  | some buf => r.piece.getD [] ++ weave buf.str r.strpos (buf.lheads.drop r.lhpos)

/-- The headers ahead are in order, between the string data read and its end. -/
def Placed (str : Bytes) (strpos : Nat) (heads : List ListHead) : Prop :=
  Ordered heads ∧ ∀ head ∈ heads, strpos ≤ head.offset ∧ head.offset ≤ str.length

structure Sound (r : EncReader) : Prop where
  placed : ∀ buf, r.buf = some buf → Placed buf.str r.strpos (buf.lheads.drop r.lhpos)
  nonempty : r.piece ≠ some []

variable {r : EncReader}

/-- A piece is what comes first of the remaining bytes, and without one there are none. -/
theorem next_spec (sound : r.Sound)
    : match r.next with
      | (none, _) => r.remaining = []
      | (some piece, next) =>
        piece ≠ [] ∧ next.buf.isSome ∧ { next with piece := none : EncReader }.Sound
        ∧ r.remaining = piece ++ { next with piece := none : EncReader }.remaining := by
  rcases hasBuf : r.buf with _ | buf
  · simp [EncReader.next, remaining, hasBuf]
  obtain ⟨ordered, inside⟩ := sound.placed buf hasBuf
  -- The reader stays on its buffer, so that only the headers ahead have to be looked at.
  have soundOf {lhpos strpos : Nat} (placed : Placed buf.str strpos (buf.lheads.drop lhpos))
      : { buf := some buf, lhpos, strpos : EncReader }.Sound :=
    ⟨by rintro _ ⟨⟩; exact placed, nofun⟩
  rcases hasPiece : r.piece with _ | piece
  · rcases atHead : buf.lheads[r.lhpos]? with _ | head
    · have past := List.drop_eq_nil_of_le (List.getElem?_eq_none_iff.mp atHead)
      simp only [EncReader.next, remaining, hasBuf, hasPiece, atHead, past, weave]
      by_cases more : r.strpos < buf.str.length
      · rw [if_pos more]
        refine ⟨by simpa using more, rfl, soundOf ?_, by simp [past, weave]⟩
        simp [past, Placed, Ordered]
      · simp [more, Nat.not_lt.mp more]
    · obtain ⟨ahead, rfl⟩ := List.getElem?_eq_some_iff.mp atHead
      have front := List.drop_eq_getElem_cons ahead
      rw [front] at ordered inside
      obtain ⟨first, others⟩ := List.pairwise_cons.mp ordered
      obtain ⟨behind, inStr⟩ := inside _ List.mem_cons_self
      simp only [EncReader.next, remaining, hasBuf, hasPiece, atHead, front, weave]
      by_cases before : buf.lheads[r.lhpos].offset - r.strpos > 0
      · rw [if_pos before]
        refine ⟨?_, rfl, soundOf ⟨front ▸ ordered, front ▸ fun head member => ?_⟩, ?_⟩
        · rw [ne_eq, ← List.length_eq_zero_iff, List.length_drop, List.length_take]
          omega
        · refine ⟨?_, (inside head member).2⟩
          rcases List.mem_cons.mp member with same | later
          · exact same ▸ le_rfl
          · exact first head later
        · simp [front, weave, -List.getElem_cons_drop]
      · have same : buf.lheads[r.lhpos].offset = r.strpos := by omega
        rw [if_neg before]
        refine ⟨?_, rfl, soundOf ⟨others, fun head member => ?_⟩, by simp [same]⟩
        · unfold ListHead.encode puthead
          split <;> simp
        · exact inside head (.tail _ member)
  · simp only [EncReader.next, remaining, hasBuf, hasPiece]
    refine ⟨?_, rfl, soundOf ⟨ordered, inside⟩, by simp⟩
    rintro rfl
    exact sound.nonempty hasPiece

/-- One `Read`: as much of the remaining bytes as there is room for, and the end of input if the
buffer takes them all. Induction on the fuel, of which every piece takes one.
-/
theorem read_eq {fuel : Nat} (room : Nat) (b : Bytes) (sound : r.Sound)
    (enough : r.remaining.length < fuel)
    : ∃ next, r.read fuel room b
        = some ((b ++ r.remaining.take room, decide (r.remaining.length ≤ room)), next)
      ∧ next.remaining = r.remaining.drop room ∧ next.Sound := by
  induction fuel generalizing r room b with
  | zero => omega
  | succ fuel ih =>
    have spec := next_spec sound
    rcases run : r.next with ⟨_ | piece, next⟩
    · have done : r.remaining = [] := by simpa only [run] using spec
      refine ⟨{ next with buf := none, piece := none }, ?_, ?_, nofun, nofun⟩
      · simp [read, run, done]
      · rw [done, List.drop_nil, remaining]
    · simp only [run] at spec
      obtain ⟨nonempty, hasBuf, soundNext, split⟩ := spec
      have positive := List.length_pos_of_ne_nil nonempty
      rw [split, List.length_append] at enough ⊢
      by_cases fits : piece.length ≤ room
      · obtain ⟨last, later, rest, soundLast⟩ :=
          ih (room - piece.length) (b ++ piece) soundNext (by omega)
        refine ⟨last, ?_, ?_, soundLast⟩
        · simp only [read, run, Nat.min_eq_right fits, Nat.lt_irrefl, if_false,
            List.take_length, later, List.take_append, List.take_of_length_le fits,
            List.append_assoc, Nat.le_sub_iff_add_le' fits]
        · rw [rest, List.drop_append, List.drop_eq_nil_of_le fits, List.nil_append]
      · have cut : room < piece.length := by omega
        obtain ⟨buf, hasBuf⟩ := Option.isSome_iff_exists.mp hasBuf
        refine ⟨{ next with piece := some (piece.drop room) }, ?_, ?_, soundNext.placed, ?_⟩
        · simp [read, run, Nat.min_eq_left cut.le, cut, List.take_append_of_le_length cut.le]
          omega
        · simp [remaining, hasBuf, List.drop_append_of_le_length cut.le]
        · simpa using cut

/-- Any sequence of reads gives the first bytes of the remaining ones, as many as there was room
for; the last one reports the end of input exactly if these were all.
-/
theorem reads_eq {fuel : Nat} {sizes : List Nat} {got : Bytes × Bool} (sound : r.Sound)
    (enough : r.remaining.length < fuel)
    : r.reads fuel sizes got
      = some (got.1 ++ r.remaining.take sizes.sum,
          if sizes = [] then got.2 else decide (r.remaining.length ≤ sizes.sum)) := by
  induction sizes generalizing r got with
  | nil => simp [reads]
  | cons size sizes ih =>
    obtain ⟨next, run, rest, soundNext⟩ := read_eq size [] sound enough
    simp only [reads, run, Option.bind_eq_bind, Option.bind_some]
    rw [ih soundNext (by rw [rest, List.length_drop]; omega), rest]
    simp only [List.nil_append, List.append_assoc, ← List.take_add, List.sum_cons,
      List.length_drop, Nat.sub_le_iff_le_add', reduceCtorEq, if_false]
    rcases sizes with _ | _
    · simp
    · simp only [reduceCtorEq, if_false]
      congr

end EncReader

def encodeToReader (v : GoValue) : Except EncodeErr (Nat × EncReader) := do
  let w ← writeValue v {}
  return (w.size, { buf := some w })

/-- A value that `EncodeToBytes` encodes to its recursive encoding is given the same bytes by
`Encode`, behind what was written before, in the buffer of an enclosing `EncodeRLP`, and by the
reader of `EncodeToReader`, which also reports their number. The reader gives them to any
sequence of buffers, and reports the end of input when they were all read.
-/
theorem encoders_agree {v : GoValue} {b : Bytes} (small : v.encode.length < 2 ^ 64)
    (encoded : encodeBytesWith (writeValue v) = .ok b)
    : b = v.encode
      ∧ (∀ out, encodeOntoWith (writeValue v) out = .ok (out ++ b))
      ∧ (∃ f : EncBuf, f.toBytes = b ∧ ∀ w, writeValue v w = .ok (w.append f))
      ∧ ∃ r, encodeToReader v = .ok (b.length, r)
        ∧ ∀ fuel sizes, b.length < fuel →
          r.reads fuel sizes ([], false)
            = some (b.take sizes.sum, decide (sizes ≠ [] ∧ b.length ≤ sizes.sum)) := by
  obtain ⟨w, wrote, returned⟩ := except_bind_ok.mp encoded
  obtain ⟨f, encodes, writes⟩ := emits_writeValue v small _ _ wrote
  have first : writeValue v {} = .ok f := append_empty (f := f) ▸ writes {}
  obtain rfl : f = w := Except.ok.inj (first.symm.trans wrote)
  obtain rfl : v.encode = b := encodes.bytes.symm.trans (Except.ok.inj returned)
  refine ⟨rfl, fun out => ?_, ⟨f, encodes.bytes, writes⟩, { buf := some f }, ?_, ?_⟩
  · rw [← encodes.toWriter]
    exact except_bind_ok.mpr ⟨f, first, rfl⟩
  · rw [← encodes.size]
    exact except_bind_ok.mpr ⟨f, first, rfl⟩
  · intro fuel sizes enough
    have remaining : EncReader.remaining { buf := some f } = v.encode := encodes.bytes
    have sound : EncReader.Sound { buf := some f } := by
      refine ⟨?_, by rintro ⟨⟩⟩
      rintro _ ⟨⟩
      exact ⟨encodes.ordered, fun head member => ⟨Nat.zero_le _, encodes.inside head member⟩⟩
    rw [EncReader.reads_eq sound (remaining ▸ enough), remaining]
    rcases sizes with _ | _
    · simp
    · simp only [reduceCtorEq, if_false, ne_eq, not_false_eq_true, true_and, List.nil_append]

/-- A list with a struct that leaves out its optional field, a nil interface and raw data. Its
header has two bytes, of which the first buffer takes one.
-/
theorem encoders_agree_list
    : ∃ r, encodeToReader (.slice false [.struct [{}, ⟨true, true⟩] [.uint 1024, .bigInt none],
          .nilInterface, .rawValue (List.replicate 51 7)]) = .ok (58, r)
      ∧ r.reads 59 [1, 2, 60] ([], false)
        = some ([0xF8, 56, 0xC3, 0x82, 4, 0, 0xC0] ++ List.replicate 51 7, true) := by
  obtain ⟨-, -, -, r, made, reads⟩ :=
    encoders_agree (v := .slice false [.struct [{}, ⟨true, true⟩] [.uint 1024, .bigInt none],
        .nilInterface, .rawValue (List.replicate 51 7)])
      (b := [0xF8, 56, 0xC3, 0x82, 4, 0, 0xC0] ++ List.replicate 51 7)
      (by decide +kernel) (by decide +kernel)
  exact ⟨r, made, reads 59 [1, 2, 60] (by decide)⟩

end GoBinacoin.Rlp
