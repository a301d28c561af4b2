import GoBinacoin.Freezer.Updates

/-! A table is opened: the index and the head are truncated until they are in sync, and then hold as
many items as both have.
-/

namespace GoBinacoin.Freezer

open SegmentedLog FreezerTable

variable {tail o k m n : Nat} {log : Log UInt8} {t t' : FreezerTable}

variable {f : File} {t'' : FreezerTable}

theorem setFile_data (found : t.data n = some f) : t.setFile n (t.file n) = t := by
  rw [setFile, file_of_data found, GoMap.set, ← found, Function.update_eq_self]

@[simp]
theorem file_setFile_self (f : File) : (t.setFile n f).file n = f := by
  simp [file, setFile]

theorem file_setFile_of_ne (ne : m ≠ n) : (t.setFile n f).file m = t.file m := by
  simp [file, setFile, GoMap.set_of_ne _ _ ne]

theorem file_materialize : (t.setFile n (t.file n)).file m = t.file m := by
  by_cases same : m = n
  · subst same
    exact file_setFile_self _
  · exact file_setFile_of_ne same

/-- Files that are present can be opened. -/
theorem openFiles_ok (numbers : List Nat) (t : FreezerTable)
    (present : ∀ n ∈ numbers, (t.data n).isSome = true)
    : numbers.foldlM (fun (t : FreezerTable) i => t.openFile i .openFreezerFileForReadOnly) t
      = .ok { t with files := t.files ∪ numbers.toFinset } := by
  induction numbers generalizing t with
  | nil => simp [pure, Except.pure]
  | cons n numbers ih =>
    have rest : ∀ m ∈ numbers, (t.data m).isSome = true := fun m mem => present m (.tail _ mem)
    rw [List.foldlM_cons]
    by_cases isOpen : n ∈ t.files
    · rw [openFile_of_mem _ isOpen]
      refine (ih t rest).trans ?_
      rw [List.toFinset_cons, Finset.union_insert,
        Finset.insert_eq_of_mem (Finset.mem_union_left _ isOpen)]
    · rw [openFile_forReadOnly isOpen (present n List.mem_cons_self)]
      refine (ih { t with files := insert n t.files } rest).trans ?_
      rw [List.toFinset_cons, Finset.union_insert, Finset.insert_union]

/-- All files from the tail to the head are opened. -/
theorem preopen_ok (tailId : t.tailId = tail) (low : tail ≤ t.headId) (files : t.files = {t.headId})
    (present : ∀ n, tail ≤ n → n ≤ t.headId → ∃ f, t.data n = some f)
    : t.preopen = .ok { t with files := Finset.Icc tail t.headId } := by
  have released : t.releaseFilesAfter 0 false
      = { t with files := ({t.headId} : Finset Nat).filter (· ≤ 0) } := by
    rw [← files]
    rfl
  have inside : ∀ n ∈ List.range' t.tailId (t.headId - t.tailId), (t.data n).isSome = true := by
    intro n mem
    obtain ⟨lower, upper⟩ := List.mem_range'_1.mp mem
    obtain ⟨f, found⟩ := present n (by omega) (by omega)
    rw [found]
    rfl
  obtain ⟨head, found⟩ := present t.headId low (Nat.le_refl _)
  unfold preopen
  rw [released]
  dsimp only
  rw [openFiles_ok _ { t with files := ({t.headId} : Finset Nat).filter (· ≤ 0) } inside]
  dsimp only
  have union : insert t.headId (({t.headId} : Finset Nat).filter (· ≤ 0)
      ∪ (List.range' t.tailId (t.headId - t.tailId)).toFinset) = Finset.Icc tail t.headId := by
    ext n
    simp only [Finset.mem_insert, Finset.mem_union, Finset.mem_filter, Finset.mem_singleton,
      List.mem_toFinset, List.mem_range'_1, Finset.mem_Icc]
    omega
  by_cases isOpen : t.headId ∈ ({t.headId} : Finset Nat).filter (· ≤ 0)
      ∪ (List.range' t.tailId (t.headId - t.tailId)).toFinset
  · rw [openFile_of_mem _ isOpen, ← union, Finset.insert_eq_of_mem isOpen]
  · rw [openFile_forAppend isOpen]
    dsimp only
    rw [union]
    have same : { t with files := Finset.Icc tail t.headId }.setFile t.headId (t.file t.headId)
        = { t with files := Finset.Icc tail t.headId } :=
      setFile_data (t := { t with files := Finset.Icc tail t.headId }) found
    exact congrArg _ same

/-! Truncating until in sync. -/

/-- The index has the entries of the first items, the head file may have lost its end. -/
structure Damaged (tail o : Nat) (log : Log UInt8) (m : Nat) (t : FreezerTable) : Prop where
  fits : Fits tail o log
  le : m ≤ log.length
  index : t.index.content = indexBytes tail o (log.take m)
  lower : ∀ n, tail ≤ n → n < headOf tail log
    → ∃ f, t.data n = some f ∧ f.content = segment log n
  head : (t.file (headOf tail log)).content <+: segment log (headOf tail log)

/-- The end of an item lies within its file. -/
structure Reached (tail o : Nat) (log : Log UInt8) (k : Nat) (t : FreezerTable) : Prop where
  first : k = 0 → o = 0
  inside : (lastEntry tail (log.take k)).offset ≤ (t.file (headOf tail (log.take k))).size

/-- A damaged file holds the beginning of what was written. -/
theorem Damaged.file_prefix (damaged : Damaged tail o log m t) (low : tail ≤ n)
    (high : n ≤ headOf tail log)
    : (t.file n).content <+: segment log n := by
  rcases Nat.lt_or_eq_of_le high with below | same
  · obtain ⟨f, found, content⟩ := damaged.lower n low below
    rw [file_of_data found, content]
  · rw [same]
    exact damaged.head

/-- Only the contents of the files matter. -/
theorem Damaged.congr (damaged : Damaged tail o log m t) (index : t'.index = t.index)
    (files : ∀ n, t'.file n = t.file n)
    (present : ∀ n, (t.data n).isSome = true → (t'.data n).isSome = true)
    : Damaged tail o log m t' where
  fits := damaged.fits
  le := damaged.le
  index := by rw [index, damaged.index]
  lower n low high := by
    obtain ⟨f, found, content⟩ := damaged.lower n low high
    have still := present n (by rw [found]; rfl)
    obtain ⟨f', found'⟩ := Option.isSome_iff_exists.mp still
    have same := files n
    rw [file_of_data found, file_of_data found'] at same
    exact ⟨f', found', by rw [same, content]⟩
  head := by
    rw [files]
    exact damaged.head

/-- One round of the repair takes the last entry from the index. -/
theorem Damaged.drop (damaged : Damaged tail o log (m + 1) t)
    : Damaged tail o log m { t with index := t.index.truncate ((m + 1) * indexEntrySize) } where
  fits := damaged.fits
  le := Nat.le_of_succ_le damaged.le
  index := by
    have length : (log.take (m + 1)).length = m + 1 := List.length_take_of_le damaged.le
    have le : (m + 1) * indexEntrySize ≤ t.index.size := by
      rw [File.size, damaged.index, length_indexBytes, length]
      exact Nat.mul_le_mul_right _ (by omega)
    change (t.index.truncate ((m + 1) * indexEntrySize)).content = _
    rw [File.truncate_content le, damaged.index, indexBytes_take, List.take_take,
      Nat.min_eq_left (Nat.le_succ m)]
  lower := damaged.lower
  head := damaged.head

/-- The last entry of the index is the end of the last item. -/
theorem readEntry_last (damaged : Damaged tail o log m t) (first : m = 0 → o = 0)
    (buffer : IndexEntry)
    : readEntry t.index (m * indexEntrySize) buffer = lastEntry tail (log.take m) := by
  have length : (log.take m).length = m := List.length_take_of_le damaged.le
  have read := readAt_index damaged.index (Nat.le_of_eq length.symm) first
  rw [List.take_of_length_le (Nat.le_of_eq length)] at read
  rw [readEntry, read, Option.map_some, Option.getD_some]
  exact (damaged.fits.take (take_eq_nil damaged.le first)).unmarshal

/-- The index and the files up to the head have the items of the log. -/
structure InSync (tail o : Nat) (log : Log UInt8) (t : FreezerTable) : Prop where
  fits : Fits tail o log
  index : t.index.content = indexBytes tail o log
  data : ∀ n, tail ≤ n → n ≤ headOf tail log → ∃ f, t.data n = some f ∧ f.content = segment log n
  files : t.files = {headOf tail log}

/-- A head file that reaches the end of the last item is in sync once it is cut there. -/
theorem Damaged.inSync (damaged : Damaged tail o log m t) (first : m = 0 → o = 0)
    (files : t.files = {headOf tail (log.take m)}) (content : f.content
      = (t.file (headOf tail (log.take m))).content.take (lastEntry tail (log.take m)).offset)
    (inside : (lastEntry tail (log.take m)).offset ≤ (t.file (headOf tail (log.take m))).size)
    : InSync tail o (log.take m) (t.setFile (headOf tail (log.take m)) f) where
  fits := damaged.fits.take (take_eq_nil damaged.le first)
  index := damaged.index
  data n low high := by
    have top := damaged.fits.consecutive.headOf_take_le m
    by_cases last : n = headOf tail (log.take m)
    · subst last
      refine ⟨f, GoMap.set_self .., ?_⟩
      obtain ⟨rest, whole⟩ := damaged.file_prefix low top
      have cut := take_segment log m (headOf tail (log.take m))
      rw [← whole] at cut
      rw [content, ← cut]
      exact (List.take_append_of_le_length inside).symm
    · obtain ⟨g, found, whole⟩ := damaged.lower n low (by omega)
      refine ⟨g, (GoMap.set_of_ne _ _ last).trans found, ?_⟩
      rw [whole, damaged.fits.consecutive.segment_take (by omega)]
  files := files

/-- The parts of a table that opening the files leaves alone. -/
structure Kept (t t' : FreezerTable) : Prop where
  settings : SameSettings t t'
  tailId : t'.tailId = t.tailId
  itemOffset : t'.itemOffset = t.itemOffset

theorem SameSettings.trans (first : SameSettings t t') (second : SameSettings t' t'')
    : SameSettings t t'' :=
  ⟨second.closed.trans first.closed, second.noCompression.trans first.noCompression,
    second.maxFileSize.trans first.maxFileSize⟩

theorem Kept.trans (first : Kept t t') (second : Kept t' t'') : Kept t t'' :=
  ⟨first.settings.trans second.settings, second.tailId.trans first.tailId,
    second.itemOffset.trans first.itemOffset⟩

section

variable {fuel offsetsSize contentSize : Nat} {lastIndex : IndexEntry}

theorem repairLoop_level (level : lastIndex.offset = contentSize)
    : repairLoop (fuel + 1) t offsetsSize contentSize lastIndex
      = .ok (t, offsetsSize, contentSize, lastIndex) :=
  if_pos level

theorem repairLoop_longer (longer : lastIndex.offset < contentSize)
    : repairLoop (fuel + 1) t offsetsSize contentSize lastIndex
      = repairLoop fuel
        (t.setFile lastIndex.filenum ((t.file lastIndex.filenum).truncate lastIndex.offset))
        offsetsSize lastIndex.offset lastIndex :=
  (if_neg (Nat.ne_of_lt longer)).trans (if_pos longer)

/-- The table with the head at an earlier entry of the index. -/
def reopenedAt (t : FreezerTable) (offsetsSize : Nat) (lastIndex newLastIndex : IndexEntry)
    : FreezerTable :=
  let t := { t with index := t.index.truncate offsetsSize }
  if newLastIndex.filenum = lastIndex.filenum then t
  else
    { t with files := insert newLastIndex.filenum (t.files.erase lastIndex.filenum) }.setFile
      newLastIndex.filenum (t.file newLastIndex.filenum)

/-- An entry of the index that lies behind the end of the head is dropped. -/
theorem repairLoop_shorter (fuel : Nat) {newLastIndex : IndexEntry}
    (shorter : contentSize < lastIndex.offset)
    (size : (t.file lastIndex.filenum).size = contentSize) (files : t.files = {lastIndex.filenum})
    (more : indexEntrySize ≤ offsetsSize)
    (entry : readEntry (t.index.truncate offsetsSize) (offsetsSize - indexEntrySize) lastIndex
      = newLastIndex)
    : repairLoop (fuel + 1) t (offsetsSize + indexEntrySize) contentSize lastIndex
      = repairLoop fuel (reopenedAt t offsetsSize lastIndex newLastIndex) offsetsSize
        ((reopenedAt t offsetsSize lastIndex newLastIndex).file newLastIndex.filenum).size
        newLastIndex := by
  have notFirst : ¬offsetsSize + indexEntrySize < indexEntrySize := by omega
  have notLast : ¬offsetsSize < indexEntrySize := by omega
  conv_lhs => rw [repairLoop]
  rw [if_neg (Nat.ne_of_gt shorter), if_neg (Nat.lt_asymm shorter), if_neg notFirst]
  dsimp only
  rw [Nat.add_sub_cancel, if_neg notLast, entry]
  by_cases same : newLastIndex.filenum = lastIndex.filenum
  · rw [if_neg (not_ne_iff.mpr same), reopenedAt, if_pos same, same, ← size]
    rfl
  · have closed : newLastIndex.filenum
        ∉ ({ t with index := t.index.truncate offsetsSize }.releaseFile lastIndex.filenum).files
        := by
      change _ ∉ t.files.erase lastIndex.filenum
      rw [files, Finset.erase_singleton]
      exact Finset.notMem_empty _
    rw [if_pos same, openFile_forAppend closed, reopenedAt, if_neg same]
    rfl

variable {newLastIndex : IndexEntry}

theorem reopenedAt_kept : Kept t (reopenedAt t offsetsSize lastIndex newLastIndex) := by
  unfold reopenedAt
  dsimp only
  split
  · exact ⟨⟨rfl, rfl, rfl⟩, rfl, rfl⟩
  · exact ⟨⟨rfl, rfl, rfl⟩, rfl, rfl⟩

theorem reopenedAt_file (n : Nat)
    : (reopenedAt t offsetsSize lastIndex newLastIndex).file n = t.file n := by
  unfold reopenedAt
  dsimp only
  split
  · rfl
  · exact file_materialize

theorem isSome_set {data : GoMap Nat File} {f : File} (present : (data n).isSome = true)
    : (data.set m f n).isSome = true := by
  rw [GoMap.set_apply]
  split
  · rfl
  · exact present

theorem reopenedAt_present (n : Nat) (present : (t.data n).isSome = true)
    : ((reopenedAt t offsetsSize lastIndex newLastIndex).data n).isSome = true := by
  unfold reopenedAt
  dsimp only
  split
  · exact present
  · exact isSome_set present

/-- After a change of the head file, only that one is open. -/
theorem reopenedAt_files (files : t.files = {lastIndex.filenum})
    : (reopenedAt t offsetsSize lastIndex newLastIndex).files = {newLastIndex.filenum} := by
  unfold reopenedAt
  dsimp only
  split
  · rename_i same
    rw [same]
    exact files
  · change insert _ (t.files.erase _) = _
    rw [files, Finset.erase_singleton]
    rfl

theorem reopenedAt_head (head : (t.data lastIndex.filenum).isSome = true)
    : ((reopenedAt t offsetsSize lastIndex newLastIndex).data newLastIndex.filenum).isSome
      = true := by
  unfold reopenedAt
  dsimp only
  split
  · rename_i same
    rw [same]
    exact head
  · exact congrArg Option.isSome (GoMap.set_self ..)

end

/-- The loop stops at a number of items that is at least that of any items that are complete. -/
theorem repairLoop_ok {fuel : Nat} (damaged : Damaged tail o log m t)
    (files : t.files = {headOf tail (log.take m)})
    (head : (t.data (headOf tail (log.take m))).isSome = true)
    (reached : Reached tail o log k t) (le : k ≤ m) (enough : m + 2 - k ≤ fuel)
    : ∃ j t', k ≤ j ∧ j ≤ m
      ∧ repairLoop fuel t ((m + 1) * indexEntrySize)
          (t.file (headOf tail (log.take m))).size (lastEntry tail (log.take m))
        = .ok (t', (j + 1) * indexEntrySize, (lastEntry tail (log.take j)).offset,
          lastEntry tail (log.take j))
      ∧ InSync tail o (log.take j) t' ∧ Kept t t' := by
  induction fuel generalizing m t with
  | zero => omega
  | succ fuel ih =>
    have first : m = 0 → o = 0 := by
      intro zero
      exact reached.first (by omega)
    rcases Nat.lt_trichotomy (lastEntry tail (log.take m)).offset
      (t.file (headOf tail (log.take m))).size with longer | level | shorter
    · -- The head is truncated, and the next round finds it in sync.
      obtain ⟨fuel, rfl⟩ : ∃ rest, fuel = rest + 1 := ⟨fuel - 1, by omega⟩
      refine ⟨m, t.setFile (headOf tail (log.take m))
        ((t.file (headOf tail (log.take m))).truncate (lastEntry tail (log.take m)).offset),
        le, Nat.le_refl _, ?_, ?_, ?_⟩
      · exact (repairLoop_longer longer).trans (repairLoop_level rfl)
      · exact damaged.inSync first files (File.truncate_content (Nat.le_of_lt longer))
          (Nat.le_of_lt longer)
      · exact ⟨⟨rfl, rfl, rfl⟩, rfl, rfl⟩
    · refine ⟨m, t, le, Nat.le_refl _, ?_, ?_, ⟨⟨rfl, rfl, rfl⟩, rfl, rfl⟩⟩
      · rw [repairLoop_level level, level]
      · obtain ⟨f, found⟩ := Option.isSome_iff_exists.mp head
        have all : (t.file (headOf tail (log.take m))).content
            = (t.file (headOf tail (log.take m))).content.take
              (lastEntry tail (log.take m)).offset := by
          rw [level]
          exact List.take_length.symm
        have whole := damaged.inSync first files all (Nat.le_of_eq level)
        rwa [setFile_data found] at whole
    · have further : k < m := by
        rcases Nat.lt_or_eq_of_le le with less | same
        · exact less
        · have inside := reached.inside
          rw [same] at inside
          exact absurd inside (Nat.not_le_of_lt shorter)
      obtain ⟨m, rfl⟩ : ∃ p, m = p + 1 := ⟨m - 1, by omega⟩
      have dropped := damaged.drop
      have firstBelow : m = 0 → o = 0 := by
        intro zero
        exact reached.first (by omega)
      have entry : readEntry (t.index.truncate ((m + 1) * indexEntrySize))
          ((m + 1) * indexEntrySize - indexEntrySize) (lastEntry tail (log.take (m + 1)))
          = lastEntry tail (log.take m) := by
        have position : (m + 1) * indexEntrySize - indexEntrySize = m * indexEntrySize := by
          rw [Nat.succ_mul, Nat.add_sub_cancel]
        rw [position]
        exact readEntry_last dropped firstBelow _
      have low := (damaged.fits.consecutive.take m).start_le_headOf
      have step := repairLoop_shorter fuel shorter rfl files
        (Nat.le_mul_of_pos_left _ (Nat.succ_pos m)) entry
      have next : Damaged tail o log m (reopenedAt t ((m + 1) * indexEntrySize)
          (lastEntry tail (log.take (m + 1))) (lastEntry tail (log.take m))) := by
        refine dropped.congr ?_ (reopenedAt_file (t := t)) (reopenedAt_present (t := t))
        unfold reopenedAt
        dsimp only
        split <;> rfl
      have inside := reached.inside
      rw [← reopenedAt_file] at inside
      obtain ⟨j, t', above, below, done, inSync, kept⟩ :=
        ih next (reopenedAt_files files) (reopenedAt_head head) ⟨reached.first, inside⟩
          (by omega) (by omega)
      refine ⟨j, t', above, by omega, ?_, inSync, reopenedAt_kept.trans kept⟩
      rw [Nat.succ_mul (m + 1)]
      exact step.trans done

/-! Opening a table. -/

/-- The first entry says where the items begin. -/
theorem readEntry_first (damaged : Damaged tail o log m t)
    : readEntry t.index 0 {} = ⟨tail, o⟩ := by
  have small : tail < 2 ^ 16 :=
    Nat.lt_of_le_of_lt damaged.fits.consecutive.start_le_headOf damaged.fits.filenum
  have found : (entries tail o (log.take m))[0]? = some ⟨tail, o⟩ := rfl
  have slice := record_slice marshallBinary_length found
  rw [Nat.zero_mul] at slice
  have read : t.index.readAt 0 indexEntrySize = some (IndexEntry.marshallBinary ⟨tail, o⟩) := by
    refine File.readAt_of_take ?_ (marshallBinary_length _)
    rw [damaged.index]
    exact slice
  rw [readEntry, read, Option.map_some, Option.getD_some]
  exact unmarshalBinary_marshallBinary small damaged.fits.offset

theorem openFile_append_ok (closed : n ∉ t.files)
    : ∃ t', t.openFile n .openFreezerFileForAppend = .ok t' ∧ t'.files = insert n t.files
      ∧ t'.index = t.index ∧ (∀ m, t'.file m = t.file m)
      ∧ (∀ m, (t.data m).isSome = true → (t'.data m).isSome = true)
      ∧ (t'.data n).isSome = true ∧ Kept t t' := by
  refine ⟨_, openFile_forAppend closed, rfl, rfl, fun m => file_materialize, ?_, ?_,
    ⟨⟨rfl, rfl, rfl⟩, rfl, rfl⟩⟩
  · exact fun m => isSome_set
  · exact congrArg Option.isSome (GoMap.set_self ..)

/-- The end of the repair opens a table whose index and head file agree. -/
theorem InSync.finishRepair (inSync : InSync tail o log t) (tailId : t.tailId = tail)
    (itemOffset : t.itemOffset = o)
    : ∃ t', t.finishRepair ((log.length + 1) * indexEntrySize) (lastEntry tail log).offset
          (lastEntry tail log) = .ok t'
      ∧ Opened tail o log t' ∧ SameSettings t t' := by
  have low := inSync.fits.consecutive.start_le_headOf
  have notFew : ¬(log.length + 1) * indexEntrySize < indexEntrySize := by
    rw [Nat.succ_mul]
    omega
  refine ⟨_, preopen_ok tailId ?_ inSync.files ?_, ?_, ⟨rfl, rfl, rfl⟩⟩
  · exact low
  · intro n lower upper
    obtain ⟨f, found, -⟩ := inSync.data n lower upper
    exact ⟨f, found⟩
  · refine
      {
        stored := ⟨inSync.fits, inSync.index, inSync.data⟩
        items := ?_
        files := rfl
        headId := rfl
        tailId := tailId
        itemOffset := itemOffset
        headBytes := Nat.mod_eq_of_lt (inSync.fits.segments _)
      }
    refine (if_neg notFew).trans ?_
    rw [itemOffset, Nat.mul_div_cancel _ (by decide)]
    rfl

/-- A table is repaired from its index on: it has at least the items that are complete. -/
theorem repairHead_ok (damaged : Damaged tail o log m t) (files : t.files = ∅)
    (reached : Reached tail o log k t) (le : k ≤ m)
    : ∃ j t', k ≤ j ∧ j ≤ m ∧ t.repairHead ((m + 1) * indexEntrySize) = .ok t'
      ∧ Opened tail o (log.take j) t' ∧ SameSettings t t' := by
  have first : m = 0 → o = 0 := by
    intro zero
    exact reached.first (by omega)
  have some : ¬(m + 1) * indexEntrySize < indexEntrySize := by
    rw [Nat.succ_mul]
    omega
  have position : (m + 1) * indexEntrySize - indexEntrySize = m * indexEntrySize := by
    rw [Nat.succ_mul]
    exact Nat.add_sub_cancel ..
  have closed : headOf tail (log.take m) ∉ { t with tailId := tail, itemOffset := o }.files := by
    rw [files]
    exact Finset.notMem_empty _
  obtain ⟨t₁, opened, filesOpen, index, sameFiles, present, head, keptOpen⟩ :=
    openFile_append_ok closed
  have damaged₁ : Damaged tail o log m t₁ := damaged.congr index sameFiles present
  have reached₁ : Reached tail o log k t₁ := by
    refine ⟨reached.first, ?_⟩
    rw [sameFiles]
    exact reached.inside
  have single : t₁.files = {headOf tail (log.take m)} := by
    rw [filesOpen, files]
    rfl
  have size : m + 2 - k ≤ (m + 1) * indexEntrySize + 2 := by
    rw [indexEntrySize]
    omega
  obtain ⟨j, t', above, below, done, inSync, kept⟩ :=
    repairLoop_ok damaged₁ single head reached₁ le size
  have length : (log.take j).length = j := List.length_take_of_le (below.trans damaged.le)
  obtain ⟨t'', finished, isOpened, same⟩ :=
    inSync.finishRepair (kept.tailId.trans keptOpen.tailId)
      (kept.itemOffset.trans keptOpen.itemOffset)
  rw [length] at finished
  have settings := (keptOpen.trans kept).settings.trans same
  refine ⟨j, t'', above, below, ?_, isOpened,
    ⟨settings.closed, settings.noCompression, settings.maxFileSize⟩⟩
  unfold repairHead
  dsimp only
  rw [readEntry_first damaged, if_neg some, position, readEntry_last damaged first]
  rw [show (lastEntry tail (log.take m)).filenum = headOf tail (log.take m) from rfl]
  dsimp only
  rw [opened]
  dsimp only
  rw [done]
  exact finished

section

variable {index : File} {data : GoMap Nat File} {maxFileSize : Nat} {noCompression : Bool}

/-- A table that was just opened. -/
structure Fresh (maxFileSize : Nat) (noCompression : Bool) (t : FreezerTable) : Prop where
  alive : t.closed = false
  noCompression : t.noCompression = noCompression
  maxFileSize : t.maxFileSize = maxFileSize

/-- What a table is opened from: some bytes of the index of a log, the files before the head and
some bytes of the head.
-/
structure Remains (tail o : Nat) (log : Log UInt8) (bytes : Nat) (index : File)
    (data : GoMap Nat File)
    : Prop where
  fits : Fits tail o log
  atLeast : indexEntrySize ≤ bytes
  atMost : bytes ≤ (indexBytes tail o log).length
  index : index.content = (indexBytes tail o log).take bytes
  lower : ∀ n, tail ≤ n → n < headOf tail log → ∃ f, data n = some f ∧ f.content = segment log n
  head : ((data (headOf tail log)).getD {}).content <+: segment log (headOf tail log)

/-- Opening keeps at least the items whose entries and data are complete. -/
theorem newCustomTable_ok {bytes : Nat} (remains : Remains tail o log bytes index data)
    (first : k = 0 → o = 0) (entry : (k + 1) * indexEntrySize ≤ bytes)
    (inside : (lastEntry tail (log.take k)).offset
      ≤ ((data (headOf tail (log.take k))).getD {}).size)
    : ∃ j t, k ≤ j ∧ newCustomTable index data maxFileSize noCompression = .ok t
      ∧ Opened tail o (log.take j) t ∧ Fresh maxFileSize noCompression t := by
  have size : index.size = bytes := by
    rw [File.size, remains.index, List.length_take]
    exact Nat.min_eq_left remains.atMost
  have most := remains.atMost
  have least := remains.atLeast
  rw [length_indexBytes] at most
  have division := Nat.div_add_mod bytes indexEntrySize
  have smaller := Nat.mod_lt bytes (show indexEntrySize > 0 by decide)
  rw [indexEntrySize] at entry most least division smaller
  obtain ⟨m, whole⟩ : ∃ m, bytes - bytes % indexEntrySize = (m + 1) * indexEntrySize := by
    refine ⟨bytes / indexEntrySize - 1, ?_⟩
    rw [indexEntrySize]
    omega
  rw [indexEntrySize] at whole
  have cut {i : File}
      (content : i.content = (indexBytes tail o log).take ((m + 1) * indexEntrySize))
      : Damaged tail o log m
        { noCompression := noCompression, maxFileSize := maxFileSize, index := i, data := data } :=
    ⟨remains.fits, by omega, content.trans indexBytes_take, remains.lower, remains.head⟩
  have repaired {i : File}
      (content : i.content = (indexBytes tail o log).take ((m + 1) * indexEntrySize))
      : ∃ j t, k ≤ j
        ∧ repairHead
            { noCompression := noCompression, maxFileSize := maxFileSize, index := i, data := data }
            i.size = .ok t
        ∧ Opened tail o (log.take j) t ∧ Fresh maxFileSize noCompression t := by
    obtain ⟨j, t, above, -, done, opened, same⟩ :=
      repairHead_ok (cut content) rfl ⟨first, inside⟩ (by omega)
    have sizeI : i.size = (m + 1) * indexEntrySize := by
      rw [File.size, content, List.length_take, length_indexBytes]
      rw [indexEntrySize]
      omega
    refine ⟨j, t, above, ?_, opened, ⟨same.closed, same.noCompression, same.maxFileSize⟩⟩
    rw [sizeI]
    exact done
  have notEmpty : ¬bytes = 0 := by omega
  unfold newCustomTable repair
  dsimp only
  rw [size, if_neg notEmpty]
  by_cases overflow : bytes % indexEntrySize = 0
  · rw [if_neg (not_ne_iff.mpr overflow)]
    refine repaired ?_
    rw [remains.index]
    congr 1
    rw [indexEntrySize] at overflow ⊢
    omega
  · rw [if_pos overflow]
    refine repaired ?_
    have shorter : bytes - bytes % indexEntrySize ≤ index.size := by
      rw [size]
      exact Nat.sub_le ..
    refine (File.truncate_content shorter).trans ?_
    rw [remains.index, List.take_take]
    congr 1
    rw [indexEntrySize]
    omega

/-- A table that was closed is opened with the same items. -/
theorem Stored.reopen (stored : Stored tail o log index data) (maxFileSize : Nat)
    (noCompression : Bool)
    : ∃ t, newCustomTable index data maxFileSize noCompression = .ok t
      ∧ Opened tail o log t ∧ Fresh maxFileSize noCompression t := by
  have low := stored.fits.consecutive.start_le_headOf
  have whole : log.take log.length = log := List.take_length
  obtain ⟨head, found, content⟩ := stored.data _ low (Nat.le_refl _)
  have remains : Remains tail o log (indexBytes tail o log).length index data := by
    refine ⟨stored.fits, ?_, Nat.le_refl _, ?_, ?_, ?_⟩
    · rw [length_indexBytes, Nat.succ_mul]
      exact Nat.le_add_left ..
    · rw [List.take_length]
      exact stored.index
    · intro n lower upper
      exact stored.data n lower (Nat.le_of_lt upper)
    · rw [found, Option.getD_some, content]
  have first : log.length = 0 → o = 0 :=
    fun zero => stored.fits.empty (List.length_eq_zero_iff.mp zero)
  have inside : (lastEntry tail (log.take log.length)).offset
      ≤ ((data (headOf tail (log.take log.length))).getD {}).size := by
    rw [whole, found, Option.getD_some, File.size, content]
    exact Nat.le_refl _
  obtain ⟨j, t, above, done, opened, fresh⟩ :=
    newCustomTable_ok remains first (Nat.le_of_eq length_indexBytes.symm) inside
  rw [List.take_of_length_le above] at opened
  exact ⟨t, done, opened, fresh⟩

/-- Without files an empty table is opened. -/
theorem newCustomTable_empty (maxFileSize : Nat) (noCompression : Bool)
    : ∃ t, newCustomTable {} GoMap.empty maxFileSize noCompression = .ok t
      ∧ Opened 0 0 [] t ∧ Fresh maxFileSize noCompression t := by
  have damaged : Damaged 0 0 [] 0
      { noCompression := noCompression
        maxFileSize := maxFileSize
        index := File.write {} (List.replicate indexEntrySize 0)
        data := GoMap.empty } := by
    have zeros : List.replicate indexEntrySize 0 = indexBytes 0 0 [] := by decide
    refine ⟨⟨.nil, by decide, fun n => Nat.two_pow_pos 32, by decide, fun _ => rfl⟩, Nat.le_refl _,
      zeros, ?_, ?_⟩
    · intro n low high
      exact absurd high (Nat.not_lt_zero n)
    · exact List.prefix_refl _
  have reached : Reached 0 0 [] 0
      { noCompression := noCompression
        maxFileSize := maxFileSize
        index := File.write {} (List.replicate indexEntrySize 0)
        data := GoMap.empty } :=
    ⟨fun _ => rfl, Nat.le_refl 0⟩
  obtain ⟨j, t, -, -, done, opened, same⟩ :=
    repairHead_ok damaged rfl reached (Nat.le_refl 0)
  rw [List.take_nil] at opened
  exact ⟨t, done, opened, ⟨same.closed, same.noCompression, same.maxFileSize⟩⟩

end

end GoBinacoin.Freezer
