import GoBinacoin.Rlp.Encode

/-! The buffered encoder computes the recursive definition of RLP.
What a value adds to a buffer does not depend on the buffer, except that list headers are
placed relative to the string data already there. So a buffer is a sequence of such additions,
each of which holds an encoding of its own.
-/

namespace GoBinacoin.Rlp

open BigEndian

/-- A buffer followed by another one, whose headers move behind the string data. -/
def EncBuf.append (w f : EncBuf) : EncBuf where
  str := w.str ++ f.str
  lheads := w.lheads ++ f.lheads.map fun head => { head with offset := w.str.length + head.offset }
  lhsize := w.lhsize + f.lhsize

/-- The order of list headers in the buffer. -/
def Ordered (heads : List ListHead) : Prop :=
  heads.Pairwise (fun first second => first.offset ≤ second.offset)

/-- The headers of a buffer are in order and within its string data, and woven into it they give
the encoding, whose size is known.
-/
structure EncBuf.Encodes (f : EncBuf) (b : Bytes) : Prop where
  ordered : Ordered f.lheads
  inside : ∀ head ∈ f.lheads, head.offset ≤ f.str.length
  bytes : f.toBytes = b
  size : f.size = b.length

namespace EncBuf

variable {w f g : EncBuf} {b c : Bytes}

theorem append_empty : append {} f = f := by
  simp [append]

theorem append_assoc : (w.append f).append g = w.append (f.append g) := by
  simp [append, Nat.add_assoc]

/-- Behind the data of another buffer, headers are woven into their own data. -/
theorem weave_shift (before str : Bytes) (pos : Nat) (heads : List ListHead)
    : weave (before ++ str) (before.length + pos)
        (heads.map fun head => { head with offset := before.length + head.offset })
      = weave str pos heads := by
  induction heads generalizing pos with
  | nil => simp [weave]
  | cons head heads ih =>
    have piece : ((before ++ str).take (before.length + head.offset)).drop (before.length + pos)
        = (str.take head.offset).drop pos := by
      simp [List.take_append, List.drop_append]
    simp only [List.map_cons, weave, piece, ih]
    rfl

/-- Two buffers are woven one after the other; induction on the headers of the first one. -/
theorem weave_append {pos : Nat} {before str : Bytes} {first second : List ListHead}
    (here : pos ≤ before.length) (inside : ∀ head ∈ first, head.offset ≤ before.length)
    : weave (before ++ str) pos
        (first ++ second.map fun head => { head with offset := before.length + head.offset })
      = weave before pos first ++ weave str 0 second := by
  induction first generalizing pos with
  | nil =>
    rw [List.nil_append]
    cases second with
    | nil => simp [weave, List.drop_append_of_le_length here]
    | cons head heads =>
      have piece : ((before ++ str).take (before.length + head.offset)).drop pos
          = before.drop pos ++ str.take head.offset := by
        rw [List.take_length_add_append, List.drop_append_of_le_length here]
      have rest := weave_shift before str head.offset heads
      simp only [List.map_cons, weave, piece, rest, List.drop_zero, List.append_assoc]
      rfl
  | cons head heads ih =>
    have bound := inside head List.mem_cons_self
    have rest := ih bound fun later member => inside later (.tail _ member)
    simp only [List.cons_append, weave, rest, List.take_append_of_le_length bound,
      List.append_assoc]

theorem Encodes.empty : Encodes {} [] := ⟨.nil, nofun, rfl, rfl⟩

theorem Encodes.raw (b : Bytes) : Encodes { str := b } b := ⟨.nil, nofun, rfl, rfl⟩

/-- Two buffers, one after the other. -/
theorem Encodes.append (first : f.Encodes b) (second : g.Encodes c)
    : (f.append g).Encodes (b ++ c) := by
  refine ⟨?_, ?_, ?_, ?_⟩
  · refine List.pairwise_append.mpr ⟨first.ordered, ?_, ?_⟩
    · exact List.pairwise_map.mpr (second.ordered.imp fun order => Nat.add_le_add_left order _)
    · intro head member later shifted
      obtain ⟨moved, -, rfl⟩ := List.mem_map.mp shifted
      exact (first.inside head member).trans (Nat.le_add_right _ _)
  · intro head member
    rw [EncBuf.append, List.length_append]
    rcases List.mem_append.mp member with here | shifted
    · exact (first.inside head here).trans (Nat.le_add_right _ _)
    · obtain ⟨moved, here, rfl⟩ := List.mem_map.mp shifted
      exact Nat.add_le_add_left (second.inside moved here) _
  · rw [← first.bytes, ← second.bytes]
    exact weave_append (Nat.zero_le _) first.inside
  · have firstSize := first.size
    have secondSize := second.size
    simp only [EncBuf.size, EncBuf.append, List.length_append] at firstSize secondSize ⊢
    omega

/-- The list of what a buffer holds. -/
def inList (f : EncBuf) : EncBuf where
  str := f.str
  lheads := ⟨0, f.size⟩ :: f.lheads
  lhsize := f.lhsize + headsize f.size

/-- A buffer inside a list. -/
theorem Encodes.list (encodes : f.Encodes b) (small : b.length < 2 ^ 64)
    : f.inList.Encodes (encodeList b) := by
  have same : uint64 f.size = b.length := by rw [encodes.size, uint64, Nat.mod_eq_of_lt small]
  have size := encodes.size
  refine ⟨?_, ?_, ?_, ?_⟩
  · exact List.pairwise_cons.mpr ⟨fun head _ => Nat.zero_le _, encodes.ordered⟩
  · intro head member
    rcases List.mem_cons.mp member with rfl | inner
    · exact Nat.zero_le _
    · exact encodes.inside head inner
  · have woven : weave f.str 0 f.lheads = b := encodes.bytes
    simp only [toBytes, inList, weave, ListHead.encode, same, puthead_eq small, woven, encodeList]
    simp
  · rw [encodeList, List.length_append, header_length small, ← size]
    simp only [EncBuf.size, inList]
    omega

/-- What `list` and `listEnd` add around what is written in between. -/
theorem listEnd_append (small : f.size < 2 ^ 64)
    : (w.list.1.append f).listEnd w.list.2 = w.append f.inList := by
  have same : uint64 f.size = f.size := Nat.mod_eq_of_lt small
  have size : (w.list.1.append f).size - w.str.length - w.lhsize = f.size := by
    simp only [EncBuf.size, EncBuf.append, EncBuf.list, List.length_append]
    omega
  have found : (w.list.1.append f).lheads[w.list.2]? = some ⟨w.str.length, w.lhsize⟩ := by
    simp [EncBuf.append, EncBuf.list]
  simp only [listEnd, found, size, same]
  simp [EncBuf.append, EncBuf.list, inList, headsize, Nat.add_assoc]
  split <;> rfl

theorem encodeString_eq (w : EncBuf) (small : b.length < 2 ^ 64)
    : w.encodeString b = w.append { str := encodeStr b } := by
  unfold encodeString encodeStr
  split
  · simp [append]
  · have same : uint64 b.length = b.length := Nat.mod_eq_of_lt small
    simp only [encodeStringHeader, header, same, putint_eq small]
    split <;> simp [append]

end EncBuf

theorem encodeStr_length_le (b : Bytes) : b.length ≤ (encodeStr b).length := by
  unfold encodeStr
  split <;> simp

mutual
/-- Writing a generic value adds a buffer with its encoding; mutual induction over the value and
its elements.
-/
theorem EncBuf.write_eq (item : Item) (small : item.encode.length < 2 ^ 64)
    : ∃ f : EncBuf, f.Encodes item.encode ∧ ∀ w, write item w = w.append f := by
  cases item with
  | str b =>
    have fits := (encodeStr_length_le b).trans_lt (by simpa only [Item.encode] using small)
    refine ⟨{ str := encodeStr b }, ?_, fun w => ?_⟩
    · rw [Item.encode]
      exact .raw _
    · rw [write, encodeString_eq w fits]
  | list items =>
    rw [Item.encode] at small ⊢
    have payload : (encodeAll items).length < 2 ^ 64 := by
      rw [List.length_append] at small
      omega
    obtain ⟨f, encodes, writes⟩ := EncBuf.writeAll_eq items payload
    refine ⟨f.inList, encodes.list payload, fun w => ?_⟩
    rw [write, writes, listEnd_append (encodes.size ▸ payload)]

/-- Writing items appends a buffer with their encodings. -/
theorem EncBuf.writeAll_eq (items : List Item) (small : (encodeAll items).length < 2 ^ 64)
    : ∃ f : EncBuf, f.Encodes (encodeAll items) ∧ ∀ w, writeAll items w = w.append f := by
  cases items with
  | nil => exact ⟨{}, by simpa using Encodes.empty, fun w => by simp [writeAll, append]⟩
  | cons item rest =>
    rw [encodeAll_cons, List.length_append] at small
    obtain ⟨f, first, writes⟩ := EncBuf.write_eq item (by omega)
    obtain ⟨g, later, others⟩ := EncBuf.writeAll_eq rest (by omega)
    refine ⟨f.append g, by simpa using first.append later, fun w => ?_⟩
    rw [writeAll, writes, others, append_assoc]
end

/-- The encoder's output is the recursive encoding, for every value it can measure. -/
theorem encodeToBytes_eq (v : Item) (small : v.encode.length < 2 ^ 64)
    : encodeToBytes v = v.encode := by
  obtain ⟨f, encodes, writes⟩ := EncBuf.write_eq v small
  rw [encodeToBytes, writes, EncBuf.append_empty, encodes.bytes]

/-- Writing piece by piece gives what `toBytes` gives; induction on the headers. -/
theorem toWriterLoop_eq {str : Bytes} {heads : List ListHead} (strpos : Nat) (out : Bytes)
    (ordered : Ordered heads) (above : ∀ head ∈ heads, strpos ≤ head.offset)
    : toWriterLoop str strpos heads out = out ++ weave str strpos heads := by
  induction heads generalizing strpos out with
  | nil =>
    simp only [toWriterLoop, weave]
    split
    · rfl
    · rename_i short
      rw [List.drop_eq_nil_of_le (by omega), List.append_nil]
  | cons head heads ih =>
    obtain ⟨first, others⟩ := List.pairwise_cons.mp ordered
    have behind := above head (by simp)
    simp only [toWriterLoop, weave]
    split
    · rw [ih _ _ others first]
      simp
    · have same : head.offset = strpos := by omega
      rw [ih _ _ others (fun later member => behind.trans (first later member)), same]
      simp

theorem EncBuf.Encodes.toWriter {f : EncBuf} {b : Bytes} (encodes : f.Encodes b) (out : Bytes)
    : f.toWriter out = out ++ b := by
  rw [EncBuf.toWriter, toWriterLoop_eq 0 out encodes.ordered fun _ _ => Nat.zero_le _]
  exact congrArg (out ++ ·) encodes.bytes

end GoBinacoin.Rlp
