import GoBinacoin.Freezer.Repair

/-! A freezer table is a list of items: appending, truncating, closing and reopening it do to the
items that can be retrieved what they do to a list.
-/

namespace GoBinacoin.Freezer

open SegmentedLog FreezerTable

inductive Op where
  | append (item : Nat) (blob : Bytes)
  | truncate (items : Nat)
  | close
  | reopen (maxFileSize : Nat)

/-- A table after a call; a call that fails leaves it. -/
def FreezerTable.after (snappy : Snappy) (t : FreezerTable) : Op → FreezerTable
  | .append item blob => (t.appendItem snappy item blob).toOption.getD t
  | .truncate items => (t.truncate items).toOption.getD t
  | .close => t.close.toOption.getD t
  | .reopen maxFileSize =>
      (newCustomTable t.index t.data maxFileSize t.noCompression).toOption.getD t

/-- The list a table stands for: its items from number `o` on, and whether it is closed. -/
structure Items where
  blobs : List Bytes
  closed : Bool

def Items.after (o : Nat) (s : Items) : Op → Items
  | .append item blob =>
      if s.closed ∨ item ≠ o + s.blobs.length then s else { s with blobs := s.blobs ++ [blob] }
  | .truncate items => if s.closed then s else { s with blobs := s.blobs.take (items - o) }
  | .close => { s with closed := true }
  | .reopen _ => { s with closed := false }

def Items.retrieve (o : Nat) (s : Items) (item : Nat) : Except FreezerError Bytes :=
  if s.closed then .error .closed
  else if o ≤ item then
    match s.blobs[item - o]? with
    | some blob => .ok blob
    | none => .error .outOfBounds
  else .error .outOfBounds

/-- The next item is shorter than 2^32 bytes, and needs no file behind the last number. Items are
only removed if none were deleted from the tail. A table that is closed does neither.
-/
def FreezerTable.Allows (snappy : Snappy) (t : FreezerTable) : Op → Prop
  | .append item blob =>
      t.closed = true ∨ t.items ≠ item
      ∨ (t.encodeBlob snappy blob).length < 2 ^ 32
        ∧ (t.headId + 1 < 2 ^ 16 ∨ t.Holds (t.encodeBlob snappy blob).length)
  | .truncate items => t.closed = true ∨ t.itemOffset = 0 ∨ t.items ≤ items
  | _ => True

/-- A table that holds a list. -/
structure Represents (snappy : Snappy) (tail o : Nat) (t : FreezerTable) (s : Items)
    (log : Log UInt8)
    : Prop where
  opened : Opened tail o log t
  items : log.map Prod.snd = s.blobs.map (t.encodeBlob snappy)
  closed : t.closed = s.closed

section Steps

variable {snappy : Snappy} {tail o : Nat} {t t' : FreezerTable} {s : Items} {log : Log UInt8}

theorem encodeBlob_congr (same : t'.noCompression = t.noCompression)
    : t'.encodeBlob snappy = t.encodeBlob snappy := by
  funext blob
  rw [encodeBlob, same, encodeBlob]

section

variable (represents : Represents snappy tail o t s log)

include represents

theorem Represents.length : log.length = s.blobs.length := by
  simpa using congrArg List.length represents.items

/-- Appending goes along with the list. -/
theorem Represents.append {item : Nat}
    {blob : Bytes} (allowed : t.Allows snappy (.append item blob))
    : ∃ log', Represents snappy tail o (t.after snappy (.append item blob))
        (s.after o (.append item blob)) log' := by
  have opened := represents.opened
  have number : t.items = o + s.blobs.length := by rw [opened.items, represents.length]
  simp only [after, Items.after]
  rcases closed : s.closed with _ | _
  · have alive := represents.closed.trans closed
    by_cases next : item = o + s.blobs.length
    · obtain ⟨small, room⟩ :=
        (allowed.resolve_left (by simp [alive])).resolve_left (by omega)
      obtain ⟨n, t', done, stored, same⟩ := opened.append_ok alive snappy small room
      rw [represents.length, ← next] at done
      rw [done, if_neg (by simp [next])]
      refine ⟨_, stored, ?_, same.closed.trans alive⟩
      rw [Except.toOption, Option.getD_some, encodeBlob_congr same.noCompression]
      simp [represents.items]
    · rw [append_unexpected alive snappy (by omega), if_pos (.inr next)]
      exact ⟨log, represents⟩
  · rw [append_closed (represents.closed.trans closed), if_pos (.inl rfl)]
    exact ⟨log, represents⟩

/-- Truncating goes along with the list. -/
theorem Represents.truncate {items : Nat} (allowed : t.Allows snappy (.truncate items))
    : ∃ log', Represents snappy tail o (t.after snappy (.truncate items))
        (s.after o (.truncate items)) log' := by
  have opened := represents.opened
  have length := represents.length
  have number := opened.items
  simp only [after, Items.after]
  rcases closed : s.closed with _ | _
  · have alive := represents.closed.trans closed
    by_cases few : t.items ≤ items
    · rw [truncate_noop few, if_neg Bool.false_ne_true, List.take_of_length_le (by omega)]
      exact ⟨log, represents.opened, represents.items, alive⟩
    · obtain rfl : o = 0 := by
        rw [← opened.itemOffset]
        exact (allowed.resolve_left (by simp [alive])).resolve_right few
      obtain ⟨t', done, stored, same⟩ := opened.truncate_ok alive items (by omega)
      rw [done, if_neg Bool.false_ne_true]
      refine ⟨_, stored, ?_, same.closed.trans alive⟩
      rw [Except.toOption, Option.getD_some, encodeBlob_congr same.noCompression]
      simp [List.map_take, represents.items]
  · have same : (t.truncate items).toOption.getD t = t := by
      rcases truncate_closed (represents.closed.trans closed) items with run | run
      all_goals
        rw [run]
        rfl
    rw [same]
    exact ⟨log, represents⟩

/-- Every operation goes along with the list. -/
theorem Represents.after {op : Op} (allowed : t.Allows snappy op)
    : ∃ log', Represents snappy tail o (t.after snappy op) (s.after o op) log' := by
  cases op with
  | append item blob => exact represents.append allowed
  | truncate items => exact represents.truncate allowed
  | close =>
    have opened := represents.opened
    simp only [FreezerTable.after, FreezerTable.close]
    split
    · rename_i dead
      exact ⟨log, opened, represents.items, dead⟩
    · exact ⟨log, ⟨opened.stored, opened.items, opened.files, opened.headId, opened.tailId,
        opened.itemOffset, opened.headBytes⟩, represents.items, rfl⟩
  | reopen maxFileSize =>
    obtain ⟨t', done, opened, fresh⟩ := represents.opened.stored.reopen maxFileSize t.noCompression
    simp only [FreezerTable.after, done]
    refine ⟨log, opened, ?_, fresh.alive⟩
    rw [Except.toOption, Option.getD_some, encodeBlob_congr fresh.noCompression]
    exact represents.items

/-- Reading gives what the list gives. -/
theorem Represents.retrieve (item : Nat) : t.retrieveItem snappy item = s.retrieve o item := by
  have opened := represents.opened
  have length := represents.length
  rcases closed : s.closed with _ | _
  · have alive := represents.closed.trans closed
    simp only [Items.retrieve, closed, Bool.false_eq_true, if_false]
    by_cases inside : o ≤ item ∧ item - o < log.length
    · obtain ⟨below, above⟩ := inside
      have found : log[item - o]? = some log[item - o] := List.getElem?_eq_getElem above
      have item_eq : item = o + (item - o) := by omega
      have blob := congrArg (·[item - o]?) represents.items
      simp only [List.getElem?_map, found, Option.map_some] at blob
      obtain ⟨original, listed, encoded⟩ := Option.map_eq_some_iff.mp blob.symm
      have read := opened.retrieve_ok alive found
      rw [← item_eq] at read
      rw [if_pos below, listed, FreezerTable.retrieveItem, read]
      simp only [← encoded, FreezerTable.encodeBlob]
      split
      · rfl
      · rw [snappy.decode_encode]
    · have outside : item < o ∨ o + log.length ≤ item := by omega
      simp only [FreezerTable.retrieveItem, opened.retrieve_outOfBounds alive outside]
      by_cases below : o ≤ item
      · rw [if_pos below, List.getElem?_eq_none (by omega)]
      · rw [if_neg below]
  · have dead := represents.closed.trans closed
    simp [FreezerTable.retrieveItem, FreezerTable.retrieve, dead, Items.retrieve, closed]

end

end Steps

def FreezerTable.run (snappy : Snappy) (t : FreezerTable) (ops : List Op) : FreezerTable :=
  ops.foldl (after snappy) t

def FreezerTable.AllowsAll (snappy : Snappy) (t : FreezerTable) : List Op → Prop
  | [] => True
  | op :: ops => t.Allows snappy op ∧ (t.after snappy op).AllowsAll snappy ops

/-- A whole run goes along with the list, by induction on the operations. -/
theorem Represents.run {snappy : Snappy} {tail o : Nat} {t : FreezerTable} {s : Items}
    {log : Log UInt8} (represents : Represents snappy tail o t s log) {ops : List Op}
    (allowed : t.AllowsAll snappy ops)
    : ∃ log', Represents snappy tail o (t.run snappy ops) (ops.foldl (Items.after o) s) log' := by
  induction ops generalizing t s log with
  | nil => exact ⟨log, represents⟩
  | cons op ops ih =>
    obtain ⟨log', next⟩ := represents.after allowed.1
    exact ih next allowed.2

/-- The files of a table with these items, or no files yet. -/
inductive OnDisk (snappy : Snappy) (noCompression : Bool)
    : Nat → List Bytes → File → GoMap Nat File → Prop
  | none : OnDisk snappy noCompression 0 [] {} GoMap.empty
  | stored {tail o : Nat} {log : Log UInt8} {blobs : List Bytes} {index : File}
      {data : GoMap Nat File} (stored : Stored tail o log index data)
      (items : log.map Prod.snd
        = blobs.map fun blob => if noCompression then blob else snappy.encode blob)
    : OnDisk snappy noCompression o blobs index data

/-- A table is opened, and from then on it is the list of its items. -/
theorem table_refines_list {snappy : Snappy} {noCompression : Bool} {o : Nat} {blobs : List Bytes}
    {index : File} {data : GoMap Nat File} (disk : OnDisk snappy noCompression o blobs index data)
    (maxFileSize : Nat)
    : ∃ t, newCustomTable index data maxFileSize noCompression = .ok t
      ∧ ∀ ops, t.AllowsAll snappy ops
        → ∀ item, (t.run snappy ops).retrieveItem snappy item
          = (ops.foldl (Items.after o) { blobs := blobs, closed := false }).retrieve o item := by
  have opens : ∃ t tail log, newCustomTable index data maxFileSize noCompression = .ok t
      ∧ Represents snappy tail o t { blobs := blobs, closed := false } log := by
    cases disk with
    | none =>
        obtain ⟨t, done, opened, fresh⟩ := newCustomTable_empty maxFileSize noCompression
        exact ⟨t, _, _, done, opened, rfl, fresh.alive⟩
    | stored stored items =>
        obtain ⟨t, done, opened, fresh⟩ := stored.reopen maxFileSize noCompression
        refine ⟨t, _, _, done, opened, ?_, fresh.alive⟩
        rw [items, ← fresh.noCompression]
        rfl
  obtain ⟨t, tail, log, done, represents⟩ := opens
  refine ⟨t, done, fun ops allowed item => ?_⟩
  obtain ⟨log', reached⟩ := represents.run allowed
  exact reached.retrieve item

/-- No compression at all. -/
def plain : Snappy where
  encode := id
  decode := some
  decode_encode _ := rfl

/-- The table has lost item 0 at its tail. Item 2 is appended in a new file, the table is closed and
opened again, and items 1 and 2 are there.
-/
theorem table_refines_list_offset
    : ∃ t, newCustomTable ⟨[0, 1, 0, 0, 0, 1, 0, 1, 0, 0, 0, 1]⟩ (GoMap.empty.set 1 ⟨[10]⟩) 1 true
        = .ok t
      ∧ (t.run plain [.append 2 [20], .close, .append 3 [30], .reopen 1]).retrieveItem plain 1
        = .ok [10]
      ∧ (t.run plain [.append 2 [20], .close, .append 3 [30], .reopen 1]).retrieveItem plain 2
        = .ok [20] := by
  have stored : Stored 1 1 [(1, [10])] ⟨[0, 1, 0, 0, 0, 1, 0, 1, 0, 0, 0, 1]⟩
      (GoMap.empty.set 1 ⟨[10]⟩) := by
    have segments (n : Nat) : (segment [(1, [(10 : UInt8)])] n).length < 2 ^ 32 := by
      rcases eq_or_ne 1 n with rfl | other
      · decide
      · rw [segment_singleton_of_ne other]
        decide
    refine ⟨⟨by simp [Consecutive], by decide, segments, by decide, nofun⟩, by decide +kernel, ?_⟩
    intro n low high
    obtain rfl : n = 1 := Nat.le_antisymm high low
    exact ⟨_, rfl, rfl⟩
  obtain ⟨t, done, refines⟩ :=
    table_refines_list (.stored stored rfl : OnDisk plain true 1 [[10]] _ _) 1
  have allowed : t.AllowsAll plain [.append 2 [20], .close, .append 3 [30], .reopen 1] := by
    obtain rfl : _ = t := Except.ok.inj (done.symm.trans rfl).symm
    exact ⟨.inr (.inr ⟨by decide +kernel, .inl (by decide +kernel)⟩), trivial,
      .inl (by decide +kernel), trivial, trivial⟩
  exact ⟨t, done, refines _ allowed 1, refines _ allowed 2⟩

/-- Items 1 and 2 are in file 1 and item 0 was deleted. Item 2 is removed and appended anew, and
the old one is still there.
-/
theorem truncate_ignores_offset
    : (do
        let index : File := ⟨[0, 1, 0, 0, 0, 1, 0, 1, 0, 0, 0, 1, 0, 1, 0, 0, 0, 2]⟩
        let t ← newCustomTable index (GoMap.empty.set 1 ⟨[10, 20]⟩) 100 true
        let t ← t.truncate 2
        let t ← t.appendItem plain 2 [30]
        t.retrieveItem plain 2) = .ok [20] := by
  rfl

end GoBinacoin.Freezer
