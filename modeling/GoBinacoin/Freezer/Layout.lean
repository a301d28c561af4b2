import GoBinacoin.Freezer.Table
import GoBinacoin.Lib.SegmentedLog
import Mathlib.Order.Interval.Finset.Nat

/-! How the items of a table lie in its files, and that every item is retrieved from there. -/

namespace GoBinacoin.Freezer

open SegmentedLog BigEndian

namespace File

variable {f : File}

theorem readAt_of_take {offset length : Nat} {b : Bytes}
    (found : (f.content.drop offset).take length = b) (size : b.length = length)
    : f.readAt offset length = some b := by
  rw [readAt, found, if_pos size]

theorem truncate_content {n : Nat} (le : n ≤ f.size)
    : (f.truncate n).content = f.content.take n := by
  have none : n - f.size = 0 := by omega
  rw [truncate, none, List.replicate_zero, List.append_nil]

end File

theorem marshallBinary_length (i : IndexEntry) : i.marshallBinary.length = indexEntrySize := by
  rw [IndexEntry.marshallBinary, List.length_append, length_toBE, length_toBE]
  rfl

/-- An index entry that fits in six bytes is read back. -/
theorem unmarshalBinary_marshallBinary {i : IndexEntry} (file : i.filenum < 2 ^ 16)
    (offset : i.offset < 2 ^ 32)
    : IndexEntry.unmarshalBinary i.marshallBinary = i := by
  have first : i.marshallBinary.take 2 = toBE 2 i.filenum := List.take_left' (length_toBE ..)
  have second : i.marshallBinary.drop 2 = toBE 4 i.offset := List.drop_left' (length_toBE ..)
  have whole : (toBE 4 i.offset).take 4 = toBE 4 i.offset :=
    List.take_of_length_le (Nat.le_of_eq (length_toBE ..))
  have fileSmall : i.filenum < 256 ^ 2 := file
  have offsetSmall : i.offset < 256 ^ 4 := offset
  rw [IndexEntry.unmarshalBinary, first, second, whole, ofBE_toBE, ofBE_toBE,
    Nat.mod_eq_of_lt fileSmall, Nat.mod_eq_of_lt offsetSmall]

variable {tail o k n : Nat} {log : Log UInt8} {index : File} {data : GoMap Nat File}
  {t : FreezerTable}

/-- The entries of the index: the first one has the number of the earliest file and the number of
items that were deleted before it, the others are the ends of the items.
-/
def entries (tail o : Nat) (log : Log UInt8) : List IndexEntry :=
  ⟨tail, o⟩ :: (marks log).map fun mark => ⟨mark.1, mark.2⟩

def indexBytes (tail o : Nat) (log : Log UInt8) : Bytes :=
  (entries tail o log).flatMap IndexEntry.marshallBinary

/-- The end of the last item. -/
def lastEntry (tail : Nat) (log : Log UInt8) : IndexEntry where
  filenum := headOf tail log
  offset := (segment log (headOf tail log)).length

theorem length_indexBytes : (indexBytes tail o log).length = (log.length + 1) * indexEntrySize := by
  rw [indexBytes, length_records marshallBinary_length, entries, List.length_cons, List.length_map,
    length_marks]

theorem entries_take : (entries tail o log).take (k + 1) = entries tail o (log.take k) := by
  rw [entries, List.take_succ_cons, ← List.map_take, ← marks_take]
  rfl

theorem indexBytes_take
    : (indexBytes tail o log).take ((k + 1) * indexEntrySize)
      = indexBytes tail o (log.take k) := by
  rw [indexBytes, take_records marshallBinary_length, entries_take]
  rfl

theorem indexBytes_concat (block : Nat × Bytes)
    : indexBytes tail o (log ++ [block])
      = indexBytes tail o log ++ (lastEntry tail (log ++ [block])).marshallBinary := by
  rw [lastEntry, headOf_concat, indexBytes, entries, marks_concat, List.map_append,
    ← List.cons_append, List.flatMap_append, List.map_singleton, List.flatMap_singleton]
  rfl

/-- The entry behind the first items is the end of the last of them. -/
theorem entries_getElem? (le : k ≤ log.length) (first : k = 0 → o = 0)
    : (entries tail o log)[k]? = some (lastEntry tail (log.take k)) := by
  cases k with
  | zero =>
    rw [first rfl]
    rfl
  | succ k =>
    have found := List.getElem?_eq_getElem (show k < log.length from le)
    have split := take_of_getElem? found
    have mark := marks_getElem? found
    rw [entries, List.getElem?_cons_succ, List.getElem?_map, mark, lastEntry, split,
      headOf_concat, ← split]
    rfl

/-- The numbers of files and the ends of items fit into the entries of the index. -/
structure Fits (tail o : Nat) (log : Log UInt8) : Prop where
  consecutive : Consecutive tail log
  filenum : headOf tail log < 2 ^ 16
  segments : ∀ n, (segment log n).length < 2 ^ 32
  offset : o < 2 ^ 32
  -- The first entry is no end of an item if items were deleted.
  empty : log = [] → o = 0

/-- The files hold the items of a log. -/
structure Stored (tail o : Nat) (log : Log UInt8) (index : File) (data : GoMap Nat File) : Prop
    where
  fits : Fits tail o log
  index : index.content = indexBytes tail o log
  data : ∀ n, tail ≤ n → n ≤ headOf tail log → ∃ f, data n = some f ∧ f.content = segment log n

/-- An open table over such files. -/
structure Opened (tail o : Nat) (log : Log UInt8) (t : FreezerTable) : Prop where
  stored : Stored tail o log t.index t.data
  items : t.items = o + log.length
  files : t.files = Finset.Icc tail (headOf tail log)
  headId : t.headId = headOf tail log
  tailId : t.tailId = tail
  itemOffset : t.itemOffset = o
  headBytes : t.headBytes = (segment log (headOf tail log)).length

theorem Fits.take (fits : Fits tail o log) (first : log.take k = [] → o = 0)
    : Fits tail o (log.take k) where
  consecutive := fits.consecutive.take k
  filenum := Nat.lt_of_le_of_lt (fits.consecutive.headOf_take_le k) fits.filenum
  segments n := Nat.lt_of_le_of_lt (length_segment_take_le log k n) (fits.segments n)
  offset := fits.offset
  empty := first

theorem Fits.unmarshal (fits : Fits tail o log)
    : IndexEntry.unmarshalBinary (lastEntry tail log).marshallBinary = lastEntry tail log :=
  unmarshalBinary_marshallBinary fits.filenum (fits.segments _)

theorem Stored.index_size (stored : Stored tail o log index data)
    : index.size = (log.length + 1) * indexEntrySize := by
  rw [File.size, stored.index, length_indexBytes]

/-- The end of the items up to one of them is read from the index. -/
theorem readAt_index (whole : index.content = indexBytes tail o log) (le : k ≤ log.length)
    (first : k = 0 → o = 0)
    : index.readAt (k * indexEntrySize) indexEntrySize
      = some (lastEntry tail (log.take k)).marshallBinary := by
  refine File.readAt_of_take ?_ (marshallBinary_length _)
  rw [whole]
  exact record_slice marshallBinary_length (entries_getElem? le first)

theorem take_eq_nil (le : k ≤ log.length) (first : k = 0 → o = 0) : log.take k = [] → o = 0 := by
  intro none
  rcases List.take_eq_nil_iff.mp none with zero | nil
  · exact first zero
  · rw [nil] at le
    exact first (Nat.le_zero.mp le)

namespace FreezerTable

theorem openFile_of_mem (opener : Opener) (isOpen : n ∈ t.files) : t.openFile n opener = .ok t :=
  if_pos isOpen

variable (closed : n ∉ t.files)
include closed

theorem openFile_forAppend
    : t.openFile n .openFreezerFileForAppend
      = .ok ({ t with files := insert n t.files }.setFile n (t.file n)) := by
  rw [openFile, if_neg closed]

theorem openFile_forReadOnly (present : (t.data n).isSome = true)
    : t.openFile n .openFreezerFileForReadOnly = .ok { t with files := insert n t.files } := by
  rw [openFile, if_neg closed]
  exact if_pos present

theorem openFile_truncated
    : t.openFile n .openFreezerFileTruncated
      = .ok ({ t with files := insert n t.files }.setFile n {}) := by
  rw [openFile, if_neg closed]

end FreezerTable

theorem FreezerTable.file_of_data {f : File} (found : t.data n = some f) : t.file n = f := by
  rw [file, found]
  rfl

variable (opened : Opened tail o log t)
include opened

theorem Opened.file_content (low : tail ≤ n) (high : n ≤ headOf tail log)
    : (t.file n).content = segment log n := by
  obtain ⟨f, found, content⟩ := opened.stored.data n low high
  rw [FreezerTable.file_of_data found]
  exact content

/-- The bounds of an item: it begins where its predecessor ends, or at the start of its file. -/
theorem Opened.getBounds {block : Nat × Bytes} (found : log[k]? = some block)
    : t.getBounds k
      = .ok ((segment (log.take k) block.1).length,
          (segment (log.take (k + 1)) block.1).length, block.1) := by
  obtain ⟨lt, -⟩ := List.getElem?_eq_some_iff.mp found
  have fits := opened.stored.fits
  have split := take_of_getElem? found
  have nextFirst : k + 1 = 0 → o = 0 := nofun
  have endEntry := (fits.take (take_eq_nil lt nextFirst)).unmarshal
  have endFields : lastEntry tail (log.take (k + 1))
      = ⟨block.1, (segment (log.take (k + 1)) block.1).length⟩ := by
    rw [lastEntry, split, headOf_concat]
  unfold FreezerTable.getBounds
  rw [readAt_index opened.stored.index lt nextFirst]
  dsimp only
  rw [endEntry, endFields]
  dsimp only
  split
  · rename_i later
    have first : k = 0 → o = 0 := fun zero => absurd zero later
    have startEntry := (fits.take (take_eq_nil (Nat.le_of_lt lt) first)).unmarshal
    rw [readAt_index opened.stored.index (Nat.le_of_lt lt) first]
    dsimp only
    rw [startEntry, lastEntry]
    dsimp only
    split
    · rename_i crossed
      rw [fits.consecutive.segment_fresh found (Ne.symm crossed)]
      rfl
    · rename_i same
      rw [not_ne_iff.mp same]
  · rename_i zero
    rw [not_ne_iff.mp zero, List.take_zero, segment_nil]
    rfl

/-- An item that is there is read from the slice between two entries. -/
theorem Opened.retrieve_ok (alive : t.closed = false)
    {block : Nat × Bytes} (found : log[k]? = some block)
    : t.retrieve (o + k) = .ok block.2 := by
  obtain ⟨lt, -⟩ := List.getElem?_eq_some_iff.mp found
  have fits := opened.stored.fits
  obtain ⟨low, high⟩ := fits.consecutive.le_headOf (List.mem_of_getElem? found)
  obtain ⟨slice, ends, -⟩ := segment_slice found
  have small := Nat.lt_of_le_of_lt (length_segment_take_le log (k + 1) block.1)
    (fits.segments block.1)
  have size : ((segment (log.take (k + 1)) block.1).length + 2 ^ 32
      - (segment (log.take k) block.1).length) % 2 ^ 32 = block.2.length := by
    omega
  have inRange : ¬t.items ≤ o + k := by
    rw [opened.items]
    omega
  have notDeleted : ¬t.itemOffset > o + k := by
    rw [opened.itemOffset]
    omega
  have isOpen : block.1 ∈ t.files := by
    rw [opened.files]
    exact Finset.mem_Icc.mpr ⟨low, high⟩
  have read : (t.file block.1).readAt (segment (log.take k) block.1).length block.2.length
      = some block.2 := by
    refine File.readAt_of_take ?_ rfl
    rw [opened.file_content low high]
    exact slice
  unfold FreezerTable.retrieve
  rw [alive, if_neg Bool.false_ne_true, if_neg inRange, if_neg notDeleted, opened.itemOffset,
    Nat.add_sub_cancel_left, opened.getBounds found]
  dsimp only
  rw [if_pos isOpen, size, read]

/-- Items before the tail or behind the head are refused. -/
theorem Opened.retrieve_outOfBounds (alive : t.closed = false)
    {item : Nat} (outside : item < o ∨ o + log.length ≤ item)
    : t.retrieve item = .error .outOfBounds := by
  unfold FreezerTable.retrieve
  rw [alive, if_neg Bool.false_ne_true, opened.items, opened.itemOffset]
  split
  · rfl
  · rename_i inRange
    rw [if_pos (by omega)]

end GoBinacoin.Freezer
