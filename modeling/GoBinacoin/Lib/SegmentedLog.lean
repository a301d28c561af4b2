import Mathlib.Data.List.Chain

/-! A log of blocks that are spread over numbered segments, each block in one segment. Segments are
filled one after the other, and a block is found through the ends of its predecessor and its own.
-/

namespace SegmentedLog

variable {α : Type}

/-- The blocks in order, with the numbers of their segments. -/
abbrev Log (α : Type) := List (Nat × List α)

/-- The contents of a segment. -/
def segment (log : Log α) (n : Nat) : List α :=
  (log.filter fun block => block.1 = n).flatMap Prod.snd

/-- The end of each block after some earlier ones: its segment and the position there. -/
def marksAfter (before : Log α) : Log α → List (Nat × Nat)
  | [] => []
  | block :: log =>
      (block.1, (segment (before ++ [block]) block.1).length) :: marksAfter (before ++ [block]) log

def marks (log : Log α) : List (Nat × Nat) := marksAfter [] log

/-- The segment that is being filled. -/
def headOf (start : Nat) (log : Log α) : Nat := (log.getLast?.map Prod.fst).getD start

/-- Every block is in the segment of its predecessor or in the next one. -/
def Consecutive (start : Nat) (log : Log α) : Prop :=
  (start :: log.map Prod.fst).IsChain fun n m => m = n ∨ m = n + 1

variable {log rest before : Log α} {start n k : Nat} {block : Nat × List α}

@[simp]
theorem segment_nil : segment ([] : Log α) n = [] := rfl

/-- Later blocks go behind the earlier ones. -/
theorem segment_append : segment (log ++ rest) n = segment log n ++ segment rest n := by
  rw [segment, List.filter_append, List.flatMap_append]
  rfl

theorem segment_singleton_self (block : Nat × List α) : segment [block] block.1 = block.2 := by
  simp [segment]

theorem segment_singleton_of_ne (apart : block.1 ≠ n) : segment [block] n = [] := by
  simp [segment, apart]

/-- A file without blocks is empty. -/
theorem segment_eq_nil (apart : ∀ block ∈ log, block.1 ≠ n) : segment log n = [] := by
  rw [segment, List.filter_eq_nil_iff.mpr, List.flatMap_nil]
  intro block mem
  simpa using apart block mem

/-- The marks of a log in two parts. -/
theorem marksAfter_append (before log rest : Log α)
    : marksAfter before (log ++ rest)
      = marksAfter before log ++ marksAfter (before ++ log) rest := by
  induction log generalizing before with
  | nil => simp [marksAfter]
  | cons block log ih => simp [marksAfter, ih]

theorem length_marksAfter (before log : Log α) : (marksAfter before log).length = log.length := by
  induction log generalizing before with
  | nil => rfl
  | cons block log ih => rw [marksAfter, List.length_cons, List.length_cons, ih]

@[simp]
theorem length_marks (log : Log α) : (marks log).length = log.length := length_marksAfter [] log

/-- A new block has its mark at the end of its file. -/
theorem marks_concat (log : Log α) (block : Nat × List α)
    : marks (log ++ [block])
      = marks log ++ [(block.1, (segment (log ++ [block]) block.1).length)] := by
  rw [marks, marksAfter_append]
  rfl

/-- The marks of the first blocks are the first marks. -/
theorem marks_take (log : Log α) (k : Nat) : marks (log.take k) = (marks log).take k := by
  have whole : marks log = marks (log.take k) ++ marksAfter (log.take k) (log.drop k) := by
    conv_lhs => rw [← List.take_append_drop k log]
    exact marksAfter_append [] _ _
  by_cases long : k ≤ log.length
  · have size : (marks (log.take k)).length = k := by
      rw [length_marks, List.length_take]
      omega
    rw [whole, List.take_left' size]
  · rw [List.take_of_length_le (by omega), List.take_of_length_le]
    rw [length_marks]
    omega

variable (found : log[k]? = some block)
include found

theorem take_of_getElem? : log.take (k + 1) = log.take k ++ [block] := by
  rw [List.take_add_one, found]
  rfl

/-- The mark of a block is its file and its end in it. -/
theorem marks_getElem?
    : (marks log)[k]? = some (block.1, (segment (log.take (k + 1)) block.1).length) := by
  obtain ⟨short, here⟩ := List.getElem?_eq_some_iff.mp found
  have split := take_of_getElem? found
  have last : (marks (log.take (k + 1)))[k]?
      = some (block.1, (segment (log.take (k + 1)) block.1).length) := by
    have size : (marks (log.take k)).length = k := by
      rw [length_marks, List.length_take]
      omega
    rw [split, marks_concat, List.getElem?_append_right (by omega), size, Nat.sub_self]
    rfl
  rw [marks_take, List.getElem?_take_of_succ] at last
  exact last

/-- A block is the slice of its file between two marks. -/
theorem segment_slice
    : ((segment log block.1).drop (segment (log.take k) block.1).length).take block.2.length
        = block.2
      ∧ (segment (log.take (k + 1)) block.1).length
        = (segment (log.take k) block.1).length + block.2.length
      ∧ (segment (log.take (k + 1)) block.1).length ≤ (segment log block.1).length := by
  have split := take_of_getElem? found
  have upTo : segment (log.take (k + 1)) block.1 = segment (log.take k) block.1 ++ block.2 := by
    rw [split, segment_append, segment_singleton_self]
  have whole : segment log block.1
      = segment (log.take k) block.1 ++ (block.2 ++ segment (log.drop (k + 1)) block.1) := by
    conv_lhs => rw [← List.take_append_drop (k + 1) log]
    rw [segment_append, upTo, List.append_assoc]
  refine ⟨?_, ?_, ?_⟩
  · rw [whole, List.drop_left, List.take_left]
  · rw [upTo, List.length_append]
  · rw [whole, upTo, List.length_append, List.length_append, List.length_append]
    omega

omit found

/-- The last block is in the head. -/
@[simp]
theorem headOf_concat : headOf start (log ++ [block]) = block.1 := by
  simp [headOf]

theorem Consecutive.nil : Consecutive start ([] : Log α) := List.isChain_singleton _

section

variable (consecutive : Consecutive start log)

include consecutive

theorem Consecutive.take (k : Nat) : Consecutive start (log.take k) := by
  have chain := List.IsChain.take consecutive (k + 1)
  rw [List.take_succ_cons, ← List.map_take] at chain
  exact chain

omit consecutive in
/-- The next block is in the head or in the next file. -/
theorem consecutive_concat
    : Consecutive start (log ++ [block])
      ↔ Consecutive start log
        ∧ (block.1 = headOf start log ∨ block.1 = headOf start log + 1) := by
  have last : (start :: log.map Prod.fst).getLast? = some (headOf start log) := by
    rw [List.getLast?_cons, List.getLast?_map]
    rfl
  rw [Consecutive, List.map_append, ← List.cons_append, List.isChain_append, last]
  simp [Consecutive]

/-- The files of the blocks never fall back. -/
theorem Consecutive.pairwise : (start :: log.map Prod.fst).Pairwise (· ≤ ·) := by
  refine List.IsChain.pairwise (List.IsChain.imp ?_ consecutive)
  intro n m step
  omega

/-- Every block is in a file from the first one to the head. -/
theorem Consecutive.le_headOf (mem : block ∈ log)
    : start ≤ block.1 ∧ block.1 ≤ headOf start log := by
  have sorted := consecutive.pairwise
  refine ⟨(List.pairwise_cons.mp sorted).1 _ (List.mem_map_of_mem mem), ?_⟩
  induction log using List.reverseRecOn with
  | nil => cases mem
  | append_singleton log last _ =>
    rw [headOf_concat]
    rcases List.mem_append.mp mem with earlier | here
    · rw [List.map_append, ← List.cons_append] at sorted
      refine (List.pairwise_append.mp sorted).2.2 block.1 ?_ last.1 (by simp)
      exact .tail _ (List.mem_map_of_mem earlier)
    · rw [List.mem_singleton.mp here]

theorem Consecutive.start_le_headOf : start ≤ headOf start log := by
  rcases last : log.getLast? with _ | block
  · rw [headOf, last]
    exact Nat.le_refl _
  · have mem := List.mem_of_getLast? last
    rw [headOf, last]
    exact (consecutive.le_headOf mem).1

/-- There is nothing behind the head. -/
theorem Consecutive.segment_above (above : headOf start log < n)
    : segment log n = [] := by
  refine segment_eq_nil ?_
  intro block mem same
  have le := (consecutive.le_headOf mem).2
  omega

omit consecutive in
theorem headOf_mem : headOf start log ∈ start :: log.map Prod.fst := by
  rw [headOf]
  rcases last : log.getLast? with _ | block
  · exact List.mem_cons_self ..
  · exact List.mem_cons_of_mem _ (List.mem_map_of_mem (List.mem_of_getLast? last))

/-- The head of a part is not behind the head. -/
theorem Consecutive.headOf_take_le (k : Nat) : headOf start (log.take k) ≤ headOf start log := by
  have mem : headOf start (log.take k) ∈ start :: (log.take k).map Prod.fst := headOf_mem
  rcases List.mem_cons.mp mem with first | later
  · rw [first]
    exact consecutive.start_le_headOf
  · obtain ⟨block, mem, same⟩ := List.mem_map.mp later
    rw [← same]
    exact (consecutive.le_headOf (List.mem_of_mem_take mem)).2

omit consecutive in
/-- The part of a file is no longer than the file. -/
theorem length_segment_take_le (log : Log α) (k n : Nat)
    : (segment (log.take k) n).length ≤ (segment log n).length := by
  conv_rhs => rw [← List.take_append_drop k log]
  rw [segment_append, List.length_append]
  exact Nat.le_add_right ..

omit consecutive in
/-- The contents of a segment in a part of the log come first in it. -/
theorem take_segment (log : Log α) (k n : Nat)
    : (segment log n).take (segment (log.take k) n).length = segment (log.take k) n := by
  conv_lhs =>
    enter [2]
    rw [← List.take_append_drop k log]
  rw [segment_append, List.take_left]

/-- A segment that is not the last one of a part of the log has all its blocks in that part. -/
theorem Consecutive.segment_take (below : n < headOf start (log.take k))
    : segment (log.take k) n = segment log n := by
  have later : segment (log.drop k) n = [] := by
    refine segment_eq_nil ?_
    intro block mem same
    have sorted := consecutive.pairwise
    rw [← List.take_append_drop k log, List.map_append, ← List.cons_append] at sorted
    have le := (List.pairwise_append.mp sorted).2.2 _ headOf_mem block.1 (List.mem_map_of_mem mem)
    omega
  conv_rhs => rw [← List.take_append_drop k log]
  rw [segment_append, later, List.append_nil]

/-- A block in a new file starts there. -/
theorem Consecutive.segment_fresh
    (found : log[k]? = some block) (fresh : block.1 ≠ headOf start (log.take k))
    : segment (log.take k) block.1 = [] := by
  have split := take_of_getElem? found
  have upTo := consecutive.take (k + 1)
  rw [split, consecutive_concat] at upTo
  refine upTo.1.segment_above ?_
  have := upTo.2
  omega

end

section

variable {β : Type} {g : β → List α} {size : Nat} (sized : ∀ b, (g b).length = size)

include sized

/-- Records of one size have a length in common. -/
theorem length_records (list : List β) : (list.flatMap g).length = list.length * size := by
  induction list with
  | nil => simp
  | cons b list ih =>
    rw [List.flatMap_cons, List.length_append, ih, sized, List.length_cons, Nat.succ_mul]
    omega

/-- The first records of a list, by their size. -/
theorem take_records (list : List β) (k : Nat)
    : (list.flatMap g).take (k * size) = (list.take k).flatMap g := by
  induction k generalizing list with
  | zero => simp
  | succ k ih =>
    rcases list with _ | ⟨b, list⟩
    · simp
    · have split : (k + 1) * size = (g b).length + k * size := by
        rw [sized, Nat.succ_mul]
        omega
      rw [List.flatMap_cons, split, List.take_length_add_append, ih, List.take_succ_cons,
        List.flatMap_cons]

/-- A record is a slice at a multiple of the size. -/
theorem record_slice {list : List β} {k : Nat} {b : β} (found : list[k]? = some b)
    : ((list.flatMap g).drop (k * size)).take size = g b := by
  induction k generalizing list with
  | zero =>
    cases list with
    | nil => cases found
    | cons first list =>
      cases found
      rw [Nat.zero_mul, List.drop_zero, List.flatMap_cons, ← sized b, List.take_left]
  | succ k ih =>
    rcases list with _ | ⟨first, list⟩
    · cases found
    · have split : (k + 1) * size = (g first).length + k * size := by
        rw [sized, Nat.succ_mul]
        omega
      rw [List.flatMap_cons, split, List.drop_length_add_append]
      exact ih found

end

end SegmentedLog
