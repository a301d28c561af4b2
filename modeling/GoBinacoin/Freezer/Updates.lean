import GoBinacoin.Freezer.Layout

/-! An item is appended to a table, in the head file or in a new one, and items are truncated. -/

namespace GoBinacoin.Freezer

open SegmentedLog FreezerTable

variable {tail o k n : Nat} {log : Log UInt8} {t : FreezerTable} {b : Bytes}

/-- The next item goes to a file, which is the head. -/
structure Ready (tail o : Nat) (log : Log UInt8) (n : Nat) (t : FreezerTable) : Prop where
  fits : Fits tail o log
  next : n = headOf tail log ∨ n = headOf tail log + 1
  index : t.index.content = indexBytes tail o log
  data : ∀ m, tail ≤ m → m ≤ n → ∃ f, t.data m = some f ∧ f.content = segment log m
  items : t.items = o + log.length
  files : t.files = Finset.Icc tail n
  headId : t.headId = n
  tailId : t.tailId = tail
  itemOffset : t.itemOffset = o
  headBytes : t.headBytes = (segment log n).length

/-- The head file takes the next item. -/
theorem Opened.ready (opened : Opened tail o log t) : Ready tail o log (headOf tail log) t where
  fits := opened.stored.fits
  next := .inl rfl
  index := opened.stored.index
  data := opened.stored.data
  items := opened.items
  files := opened.files
  headId := opened.headId
  tailId := opened.tailId
  itemOffset := opened.itemOffset
  headBytes := opened.headBytes

/-- A table is the same but for its files and its counters. -/
structure SameSettings (t t' : FreezerTable) : Prop where
  closed : t'.closed = t.closed
  noCompression : t'.noCompression = t.noCompression
  maxFileSize : t'.maxFileSize = t.maxFileSize

/-- The head file takes that many bytes more. -/
def FreezerTable.Holds (t : FreezerTable) (bytes : Nat) : Prop :=
  t.headBytes + bytes < 2 ^ 32 ∧ t.headBytes + bytes ≤ t.maxFileSize

/-- The next file becomes the head. -/
theorem Opened.advance (opened : Opened tail o log t) (room : headOf tail log + 1 < 2 ^ 16)
    : ∃ t', t.advance = .ok t' ∧ Ready tail o log (headOf tail log + 1) t' ∧ SameSettings t t'
      ∧ t'.index = t.index
      ∧ t'.data = t.data.set (headOf tail log + 1) {} := by
  have fits := opened.stored.fits
  have low := fits.consecutive.start_le_headOf
  have nextID : (t.headId + 1) % 2 ^ 32 = headOf tail log + 1 := by
    rw [opened.headId]
    omega
  have notOpen : headOf tail log + 1 ∉ t.files := by
    rw [opened.files, Finset.mem_Icc]
    omega
  obtain ⟨old, present, -⟩ := opened.stored.data _ low (Nat.le_refl _)
  have stillThere : (t.data.set (headOf tail log + 1) {} (headOf tail log)).isSome = true := by
    rw [GoMap.set_of_ne _ _ (by omega), present]
    rfl
  have files : insert (headOf tail log)
      ((insert (headOf tail log + 1) t.files).erase (headOf tail log))
      = Finset.Icc tail (headOf tail log + 1) := by
    rw [opened.files]
    ext m
    simp only [Finset.mem_insert, Finset.mem_erase, Finset.mem_Icc]
    omega
  unfold FreezerTable.advance
  dsimp only
  rw [nextID, FreezerTable.openFile_truncated notOpen]
  dsimp only
  rw [opened.headId, FreezerTable.openFile_forReadOnly (Finset.notMem_erase _ _) stillThere]
  refine ⟨_, rfl, ?_, ⟨rfl, rfl, rfl⟩, rfl, rfl⟩
  refine
    {
      fits := fits
      next := .inr rfl
      index := opened.stored.index
      data := ?_
      items := opened.items
      files := files
      headId := rfl
      tailId := opened.tailId
      itemOffset := opened.itemOffset
      headBytes := ?_
    }
  · intro m lower upper
    change ∃ f, t.data.set (headOf tail log + 1) {} m = some f ∧ f.content = segment log m
    by_cases fresh : m = headOf tail log + 1
    · subst fresh
      refine ⟨{}, GoMap.set_self .., ?_⟩
      rw [fits.consecutive.segment_above (Nat.lt_succ_self _)]
    · rw [GoMap.set_of_ne _ _ fresh]
      exact opened.stored.data m lower (by omega)
  · rw [fits.consecutive.segment_above (Nat.lt_succ_self _)]
    rfl

/-- The item goes to the head file and its end to the index. -/
theorem Ready.write (ready : Ready tail o log n t) (small : n < 2 ^ 16)
    (short : (segment log n).length + b.length < 2 ^ 32)
    : Opened tail o (log ++ [(n, b)]) ((t.writeBlob b).writeEntry b.length) := by
  have low := ready.fits.consecutive.start_le_headOf
  have head : headOf tail (log ++ [(n, b)]) = n := headOf_concat
  have grown : segment (log ++ [(n, b)]) n = segment log n ++ b := by
    rw [segment_append]
    exact congrArg _ (segment_singleton_self (n, b))
  have offset : (t.headBytes + b.length) % 2 ^ 32 = (segment (log ++ [(n, b)]) n).length := by
    rw [ready.headBytes, grown, List.length_append, Nat.mod_eq_of_lt short]
  have other {m : Nat} (apart : m ≠ n) : segment (log ++ [(n, b)]) m = segment log m := by
    rw [segment_append, segment_singleton_of_ne (Ne.symm apart), List.append_nil]
  have fits : Fits tail o (log ++ [(n, b)]) := by
    refine
      {
        consecutive := consecutive_concat.mpr ⟨ready.fits.consecutive, ready.next⟩
        filenum := by rwa [head]
        segments := ?_
        offset := ready.fits.offset
        empty := fun none => absurd none (by simp)
      }
    intro m
    by_cases same : m = n
    · rw [same, grown, List.length_append]
      exact short
    · rw [other same]
      exact ready.fits.segments m
  refine
    {
      stored :=
        {
          fits := fits
          index := ?_
          data := ?_
        }
      items := ?_
      files := by rw [head]; exact ready.files
      headId := by rw [head]; exact ready.headId
      tailId := ready.tailId
      itemOffset := ready.itemOffset
      headBytes := by rw [head]; exact offset
    }
  · dsimp only [writeEntry, writeBlob, setFile, File.write]
    rw [offset, ready.index, ready.headId, indexBytes_concat, lastEntry, head]
  · intro m lower upper
    rw [head] at upper
    dsimp only [writeEntry, writeBlob, setFile]
    rw [ready.headId]
    by_cases same : m = n
    · subst same
      obtain ⟨f, found, content⟩ := ready.data m lower upper
      refine ⟨_, GoMap.set_self .., ?_⟩
      rw [file_of_data found, File.write, content, grown]
    · rw [GoMap.set_of_ne _ _ same, other same]
      exact ready.data m lower upper
  · dsimp only [writeEntry, writeBlob, setFile]
    rw [ready.items, List.length_append, List.length_singleton]
    omega

variable {blob : Bytes} {item : Nat}

variable (opened : Opened tail o log t) (alive : t.closed = false) (snappy : Snappy)
  (small : (t.encodeBlob snappy blob).length < 2 ^ 32)
include opened alive small

/-- What an append does: the item goes to the head file, or to a new one, whose number is only
needed if the head is full.
-/
theorem Opened.append_cases
    (room : t.headId + 1 < 2 ^ 16 ∨ t.Holds (t.encodeBlob snappy blob).length)
    : ∃ n t', n < 2 ^ 16 ∧ Ready tail o log n t' ∧ SameSettings t t'
      ∧ (segment log n).length + (t.encodeBlob snappy blob).length < 2 ^ 32
      ∧ (t' = t ∧ n = headOf tail log ∨ t.advance = .ok t' ∧ n = headOf tail log + 1)
      ∧ t.appendItem snappy (o + log.length) blob
        = .ok ((t'.writeBlob (t.encodeBlob snappy blob)).writeEntry
          (t.encodeBlob snappy blob).length) := by
  have fits := opened.stored.fits
  have headSmall := fits.segments (headOf tail log)
  have bytes : (t.encodeBlob snappy blob).length % 2 ^ 32 = (t.encodeBlob snappy blob).length :=
    Nat.mod_eq_of_lt small
  have number : ¬t.items ≠ o + log.length := not_ne_iff.mpr opened.items
  by_cases full : ((segment log (headOf tail log)).length + (t.encodeBlob snappy blob).length)
      % 2 ^ 32 < (t.encodeBlob snappy blob).length
    ∨ ((segment log (headOf tail log)).length + (t.encodeBlob snappy blob).length) % 2 ^ 32
      > t.maxFileSize
  · have next : headOf tail log + 1 < 2 ^ 16 := by
      rw [Holds, opened.headId, opened.headBytes] at room
      omega
    obtain ⟨t', advanced, ready, same, -⟩ := opened.advance next
    refine ⟨headOf tail log + 1, t', next, ready, same, ?_, .inr ⟨advanced, rfl⟩, ?_⟩
    · rw [fits.consecutive.segment_above (Nat.lt_succ_self _)]
      simpa using small
    · have first : t.append (o + log.length) (t.encodeBlob snappy blob) false = .ok (true, t) := by
        unfold append
        rw [alive, if_neg Bool.false_ne_true, if_neg number, bytes, opened.headBytes, if_pos full,
          if_neg Bool.false_ne_true]
      have retry : t.append (o + log.length) (t.encodeBlob snappy blob) true
          = .ok (false, (t'.writeBlob (t.encodeBlob snappy blob)).writeEntry
            (t.encodeBlob snappy blob).length) := by
        unfold append
        rw [alive, if_neg Bool.false_ne_true, if_neg number, bytes, opened.headBytes, if_pos full,
          if_pos rfl, advanced]
      unfold appendItem
      rw [first]
      dsimp only
      rw [if_pos rfl, retry]
  · refine ⟨headOf tail log, t, fits.filenum, opened.ready, ⟨rfl, rfl, rfl⟩, by omega,
      .inl ⟨rfl, rfl⟩, ?_⟩
    have first : t.append (o + log.length) (t.encodeBlob snappy blob) false
        = .ok (false, (t.writeBlob (t.encodeBlob snappy blob)).writeEntry
          (t.encodeBlob snappy blob).length) := by
      unfold append
      rw [alive, if_neg Bool.false_ne_true, if_neg number, bytes, opened.headBytes, if_neg full]
    unfold appendItem
    rw [first]
    exact if_neg Bool.false_ne_true

theorem Opened.append_ok
    (room : t.headId + 1 < 2 ^ 16 ∨ t.Holds (t.encodeBlob snappy blob).length)
    : ∃ n t', t.appendItem snappy (o + log.length) blob = .ok t'
      ∧ Opened tail o (log ++ [(n, t.encodeBlob snappy blob)]) t' ∧ SameSettings t t' := by
  obtain ⟨n, ready, bound, isReady, same, short, -, done⟩ :=
    opened.append_cases alive snappy small room
  exact ⟨n, _, done, isReady.write bound short, ⟨same.closed, same.noCompression, same.maxFileSize⟩⟩

omit opened alive small

theorem append_unexpected (alive : t.closed = false) (snappy : Snappy) (other : t.items ≠ item)
    : t.appendItem snappy item blob = .error (.unexpectedItem t.items item) := by
  unfold appendItem append
  rw [alive, if_neg Bool.false_ne_true, if_pos other]

theorem append_closed (dead : t.closed = true) (snappy : Snappy)
    : t.appendItem snappy item blob = .error .closed := by
  unfold appendItem append
  rw [if_pos dead]

theorem truncate_noop {items : Nat} (few : t.items ≤ items) : t.truncate items = .ok t := if_pos few

theorem truncate_closed (dead : t.closed = true) (items : Nat)
    : t.truncate items = .ok t ∨ t.truncate items = .error .closed := by
  by_cases few : t.items ≤ items
  · exact .inl (if_pos few)
  · exact .inr ((if_neg few).trans (if_pos dead))

/-- An older file becomes the head again, and later ones are deleted. -/
theorem Opened.rewind (opened : Opened tail o log t) (k : Nat) (index : File)
    : ∃ t', { t with index := index }.rewind (headOf tail (log.take k)) = .ok t'
      ∧ SameSettings t t' ∧ t'.index = index ∧ t'.headId = headOf tail (log.take k)
      ∧ t'.tailId = t.tailId ∧ t'.itemOffset = t.itemOffset
      ∧ t'.files = Finset.Icc tail (headOf tail (log.take k))
      ∧ ∀ n ≤ headOf tail (log.take k), t'.data n = t.data n := by
  have fits := opened.stored.fits
  have low := (fits.consecutive.take k).start_le_headOf
  have high := fits.consecutive.headOf_take_le k
  unfold FreezerTable.rewind
  split
  · rename_i older
    have closed : headOf tail (log.take k)
        ∉ ({ t with index := index }.releaseFile (headOf tail (log.take k))).files :=
      Finset.notMem_erase _ _
    rw [FreezerTable.openFile_forAppend closed]
    dsimp only
    refine ⟨_, rfl, ⟨rfl, rfl, rfl⟩, rfl, rfl, rfl, rfl, ?_, ?_⟩
    · change Finset.filter (· ≤ headOf tail (log.take k))
        (insert (headOf tail (log.take k)) (t.files.erase (headOf tail (log.take k)))) = _
      rw [opened.files]
      ext m
      simp only [Finset.mem_filter, Finset.mem_insert, Finset.mem_erase, Finset.mem_Icc]
      omega
    · intro n le
      obtain ⟨f, found, -⟩ := opened.stored.data _ low high
      have kept : t.data.set (headOf tail (log.take k)) (t.file (headOf tail (log.take k)))
          = t.data := by
        rw [FreezerTable.file_of_data found, GoMap.set, ← found, Function.update_eq_self]
      have notAfter : ¬(n ∈ insert (headOf tail (log.take k))
          (t.files.erase (headOf tail (log.take k))) ∧ headOf tail (log.take k) < n) := by
        rintro ⟨-, above⟩
        omega
      refine (if_neg notAfter).trans ?_
      exact congrFun kept n
  · rename_i same
    have same : headOf tail (log.take k) = t.headId := not_ne_iff.mp same
    rw [opened.headId] at same
    refine ⟨_, rfl, ⟨rfl, rfl, rfl⟩, rfl, ?_, rfl, rfl, ?_, fun _ _ => rfl⟩
    · rw [same]
      exact opened.headId
    · rw [same]
      exact opened.files

/-- The items from a number on are removed, if none were deleted from the tail. -/
theorem Opened.truncate_ok (opened : Opened tail 0 log t) (alive : t.closed = false) (items : Nat)
    (fewer : items < log.length)
    : ∃ t', t.truncate items = .ok t' ∧ Opened tail 0 (log.take items) t' ∧ SameSettings t t' := by
  have fits := opened.stored.fits
  have taken : Fits tail 0 (log.take items) := fits.take fun _ => rfl
  have many : ¬t.items ≤ items := by
    rw [opened.items]
    omega
  have cut : (t.index.truncate ((items + 1) * indexEntrySize)).content
      = indexBytes tail 0 (log.take items) := by
    have le : (items + 1) * indexEntrySize ≤ t.index.size := by
      rw [opened.stored.index_size]
      exact Nat.mul_le_mul_right _ (by omega)
    rw [File.truncate_content le, opened.stored.index, indexBytes_take]
  have size : (log.take items).length = items := by
    rw [List.length_take]
    omega
  have read : (t.index.truncate ((items + 1) * indexEntrySize)).readAt (items * indexEntrySize)
      indexEntrySize = some (lastEntry tail (log.take items)).marshallBinary := by
    have last := readAt_index cut (Nat.le_of_eq size.symm) fun _ => rfl
    rwa [List.take_of_length_le (Nat.le_of_eq size)] at last
  obtain ⟨t', rewound, same, index, headId, tailId, itemOffset, files, data⟩ :=
    opened.rewind items (t.index.truncate ((items + 1) * indexEntrySize))
  have low := taken.consecutive.start_le_headOf
  have high := fits.consecutive.headOf_take_le items
  have isOpen : ¬t.closed = true := by
    rw [alive]
    exact Bool.false_ne_true
  unfold truncate
  rw [if_neg many, if_neg isOpen]
  dsimp only
  rw [read]
  dsimp only
  rw [taken.unmarshal]
  dsimp only [lastEntry]
  rw [rewound]
  dsimp only
  refine ⟨_, rfl, ?_, ⟨same.closed, same.noCompression, same.maxFileSize⟩⟩
  refine
    {
      stored :=
        {
          fits := taken
          index := by
            rw [← cut, ← index]
            rfl
          data := ?_
        }
      items := by
        rw [size, Nat.zero_add]
      files := files
      headId := headId
      tailId := tailId.trans opened.tailId
      itemOffset := itemOffset.trans opened.itemOffset
      headBytes := rfl
    }
  intro n lower upper
  obtain ⟨f, found, content⟩ := opened.stored.data n lower (Nat.le_trans upper high)
  have foundStill := (data n upper).trans found
  dsimp only [setFile]
  rw [headId]
  by_cases last : n = headOf tail (log.take items)
  · subst last
    refine ⟨_, GoMap.set_self .., ?_⟩
    have le : (segment (log.take items) (headOf tail (log.take items))).length ≤ f.size := by
      rw [File.size, content]
      exact length_segment_take_le ..
    rw [file_of_data foundStill, File.truncate_content le, content, take_segment]
  · rw [GoMap.set_of_ne _ _ last]
    refine ⟨f, foundStill, ?_⟩
    rw [content, fits.consecutive.segment_take (by omega)]

end GoBinacoin.Freezer
