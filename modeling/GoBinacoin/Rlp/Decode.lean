import GoBinacoin.Rlp.StreamErrors

/-! What decoding into `interface{}` accepts, and that the recursion bound of the model is
never what stops it.
-/

namespace GoBinacoin.Rlp

open Stream

/-- `next` stands behind `bytes`, with no header cached. -/
structure Stream.Consumed (bytes : Bytes) (s next : Stream) : Prop where
  input : s.r = bytes ++ next.r
  after : After bytes.length s next
  fresh : next.kindAhead = none

variable {s middle next : Stream} {size fuel : Nat} {b : Bytes} {items : List Item} {v : Item}
  {e : Err}

theorem Stream.Consumed.nil (sound : s.Sound) (fresh : s.kindAhead = none) : Consumed [] s s :=
  ⟨rfl, ⟨Nat.zero_le _, rfl, rfl, sound.advance_zero.symm, rfl⟩, fresh⟩

theorem Stream.Consumed.trans {front back : Bytes}
    (first : Consumed front s middle) (second : Consumed back middle next)
    (bounded : s.r.length < 2 ^ 64)
    : Consumed (front ++ back) s next := by
  refine ⟨?_, ?_, second.fresh⟩
  · rw [first.input, second.input, List.append_assoc]
  · rw [List.length_append]
    exact first.after.trans second.after bounded

theorem Stream.After.length_le {n : Nat} (after : After n s next) : next.r.length ≤ s.r.length := by
  rw [after.r, List.length_drop]
  omega

theorem singleByte_singleton (byte : UInt8) : singleByte [byte] = decide (byte < 0x80) := by
  rw [show singleByte [byte] = decide (byte ≤ 0x7F) from rfl, decide_eq_decide,
    UInt8.le_iff_toNat_le, UInt8.lt_iff_toNat_lt]
  simp only [UInt8.reduceToNat]
  omega

theorem exists_of_singleByte (single : singleByte b = true) : ∃ byte, b = [byte] := by
  rcases b with _ | ⟨byte, _ | _⟩
  · exact (Bool.false_ne_true single).elim
  · exact ⟨byte, rfl⟩
  · exact (Bool.false_ne_true single).elim

theorem singleByte_eq_false (notSingle : ∀ x, b = [x] → ¬ x < 0x80) : singleByte b = false := by
  match b, notSingle with
  | [], _ => rfl
  | _ :: _ :: _, _ => rfl
  | [x], notSingle => rw [singleByte_singleton, decide_eq_false (notSingle x rfl)]

/-- A string that is read was canonical. -/
theorem Stream.bytes_ok {kind : Kind}
    (sound : s.Sound) (bounded : s.r.length < 2 ^ 64) (heads : s.Heads kind size middle)
    (ahead : middle.Ahead kind size) (run : middle.bytes = (.ok b, next))
    : Consumed (encodeStr b) s next := by
  simp only [bytes, kind_ahead ahead] at run
  cases kind with
  | list => cases run
  | byte =>
    cases run
    obtain ⟨-, low⟩ := heads.single rfl
    have own : encodeStr [middle.byteval] = [middle.byteval] := by
      simp [encodeStr, singleByte_singleton, low]
    rw [own]
    have after := heads.after
    exact ⟨heads.input, ⟨after.enough, after.r, after.remaining, after.stack, after.limited⟩, rfl⟩
  | string =>
    simp only at run
    split at run
    · cases run
    · rename_i payload left read
      split at run
      · cases run
      · rename_i canonical
        cases run
        obtain ⟨taken, after, fresh⟩ := readFull_ok (heads.after.sound sound) read
        have length := readFull_length (heads.after.sound sound) read
        have notSingle : singleByte b = false := by
          refine singleByte_eq_false fun byte same low => canonical ?_
          rw [← length, same]
          simpa using low
        have encoded : encodeStr b = header 0x80 0xB7 size ++ b := by
          simp [encodeStr, notSingle, length]
        rw [encoded]
        refine ⟨?_, ?_, fresh⟩
        · rw [heads.input, List.append_assoc, taken]
          congr 1
          exact after.append
        · rw [List.length_append, length]
          exact heads.after.trans after bounded

/-- The stream inside a list whose header was read: the size is taken from the outer list. -/
def Stream.enter (size : Nat) (s : Stream) : Stream :=
  { s with stack := size :: advance size s.stack, kindAhead := none, sizeAhead := 0 }

theorem Stream.list_ahead (ahead : s.Ahead .list size) : s.list = (.ok size, s.enter size) := by
  simp only [list, kind_ahead ahead, enter]
  cases s.stack <;> rfl

theorem Stream.enter_sound (sound : s.Sound) (small : size < 2 ^ 64) : (s.enter size).Sound := by
  refine ⟨sound.limited, sound.remaining, ?_⟩
  intro limit member
  rcases List.mem_cons.mp member with same | outer
  · exact same ▸ small
  · exact advance_bounded sound.bounded limit outer

/-- Leaving a list whose limit is used up: exactly its size was consumed, since both are
below 2^64.
-/
theorem endList_ok {s inside next : Stream} (bounded : s.r.length < 2 ^ 64) (small : size < 2 ^ 64)
    (elements : Consumed (encodeAll items) (s.enter size) inside)
    (run : endList items inside = (.ok v, next))
    : v = .list items ∧ (encodeAll items).length = size
      ∧ Consumed (encodeAll items) s next := by
  have enough : (encodeAll items).length ≤ s.r.length := elements.after.enough
  have stack : inside.stack = subU64 size (encodeAll items).length :: advance size s.stack :=
    elements.after.stack
  unfold endList at run
  split at run
  · cases run
  · rename_i left ended
    cases run
    simp only [listEnd, stack] at ended
    split at ended
    · cases ended
    · rename_i used
      cases ended
      have same : (encodeAll items).length = size := by
        unfold subU64 at used
        omega
      refine ⟨rfl, same, elements.input, ⟨enough, elements.after.r, elements.after.remaining,
        ?_, elements.after.limited⟩, rfl⟩
      rw [same]

theorem endList_error (run : endList items s = (.error e, next)) : e.Plain := by
  unfold endList at run
  split at run
  · rename_i ended
    cases run
    exact listEnd_error ended
  · cases run

variable {decodeElems : Stream → Result (List Item)}

/-- A list that is read was canonical if its elements were. -/
theorem decodeListSlice_ok (bounded : s.r.length < 2 ^ 64) (small : size < 2 ^ 64)
    (sound : s.Sound) (ahead : s.Ahead .list size)
    (elements : ∀ {items inside}, decodeElems (s.enter size) = (.ok items, inside) →
      Consumed (encodeAll items) (s.enter size) inside)
    (run : decodeListSlice decodeElems s = (.ok v, next))
    : ∃ items,
        v = .list items ∧ (encodeAll items).length = size
        ∧ Consumed (encodeAll items) s next := by
  simp only [decodeListSlice, list_ahead ahead] at run
  cases size with
  | zero =>
    have nothing := Consumed.nil (enter_sound sound small) rfl
    rw [← encodeAll_nil] at nothing
    exact ⟨[], endList_ok bounded small nothing run⟩
  | succ size =>
    simp only at run
    split at run
    · cases run
    · rename_i items inside decoded
      exact ⟨items, endList_ok bounded small (elements decoded) run⟩

/-- An error inside a list is one of its elements, or a plain one. -/
theorem decodeListSlice_error (ahead : s.Ahead .list size)
    (run : decodeListSlice decodeElems s = (.error e, next))
    : e.Plain ∨ decodeElems (s.enter size) = (.error e, next) := by
  simp only [decodeListSlice, list_ahead ahead] at run
  cases size with
  | zero => exact Or.inl (endList_error run)
  | succ size =>
    simp only at run
    split at run
    · rename_i decoded
      cases run
      exact Or.inr decoded
    · exact Or.inl (endList_error run)

/-- A stream over a byte slice, between two values. -/
structure Stream.Ready (s : Stream) : Prop where
  sound : s.Sound
  bounded : s.r.length < 2 ^ 64
  fresh : s.kindAhead = none

theorem Stream.Consumed.ready {bytes : Bytes} (consumed : Consumed bytes s next) (ready : s.Ready)
    : next.Ready :=
  ⟨consumed.after.sound ready.sound, consumed.after.length_le.trans_lt ready.bounded,
    consumed.fresh⟩

/-- The stream inside a list is ready, and shorter than before the header. -/
theorem Stream.Heads.enter_ready (heads : s.Heads .list size middle) (ready : s.Ready)
    : (middle.enter size).Ready ∧ (middle.enter size).r.length < s.r.length := by
  have shorter : middle.r.length < s.r.length := by
    have positive := headOf_pos .list size middle.byteval
    rw [heads.input, List.length_append]
    omega
  exact ⟨⟨enter_sound (heads.after.sound ready.sound) heads.small,
    shorter.trans ready.bounded, rfl⟩, shorter⟩

/-- What the two decoders do with the given bound on their recursion. -/
structure Outcomes (fuel : Nat) : Prop where
  item_ok : ∀ {s next : Stream} {v : Item}, s.Ready →
    decodeInterface fuel s = (.ok v, next) → Consumed v.encode s next
  items_ok : ∀ {s next : Stream} {items : List Item}, s.Ready →
    decodeSliceElems fuel s = (.ok items, next) → Consumed (encodeAll items) s next
  item_error : ∀ {s next : Stream} {e : Err}, s.Ready →
    decodeInterface fuel s = (.error e, next) →
    (e = .eol → next = s) ∧ (2 * s.r.length + 1 ≤ fuel → e ≠ .outOfFuel)
  items_error : ∀ {s next : Stream} {e : Err}, s.Ready →
    decodeSliceElems fuel s = (.error e, next) →
    e ≠ .eol ∧ (2 * s.r.length + 2 ≤ fuel → e ≠ .outOfFuel)

/-- One level more of a value that is read. -/
theorem Outcomes.item_ok_step (ih : Outcomes fuel)
    (ready : s.Ready) (run : decodeInterface (fuel + 1) s = (.ok v, next))
    : Consumed v.encode s next := by
  simp only [decodeInterface] at run
  split at run
  · cases run
  · rename_i size middle read
    obtain ⟨heads, ahead, -⟩ := kind_ok ready.sound ready.bounded ready.fresh read
    obtain ⟨enterReady, -⟩ := heads.enter_ready ready
    have middleBounded : middle.r.length < 2 ^ 64 := enterReady.bounded
    obtain ⟨items, rfl, length, consumed⟩ :=
      decodeListSlice_ok middleBounded heads.small (heads.after.sound ready.sound) ahead
        (fun decoded => ih.items_ok enterReady decoded) run
    have encoded : (Item.list items).encode
        = headOf .list size middle.byteval ++ encodeAll items := by
      simp [Item.encode, headOf, length]
    rw [encoded]
    refine ⟨?_, ?_, consumed.fresh⟩
    · rw [heads.input, consumed.input, List.append_assoc]
    · rw [List.length_append]
      exact heads.after.trans consumed.after ready.bounded
  · rename_i kind size middle notList read
    obtain ⟨heads, ahead, -⟩ := kind_ok ready.sound ready.bounded ready.fresh read
    split at run
    · cases run
    · rename_i b left decoded
      cases run
      simpa [Item.encode] using bytes_ok ready.sound ready.bounded heads ahead decoded

/-- One level more of a value that fails. -/
theorem Outcomes.item_error_step (ih : Outcomes fuel)
    (ready : s.Ready) (run : decodeInterface (fuel + 1) s = (.error e, next))
    : (e = .eol → next = s) ∧ (2 * s.r.length + 1 ≤ fuel + 1 → e ≠ .outOfFuel) := by
  have ofPlain (plain : e.Plain)
      : (e = .eol → next = s) ∧ (2 * s.r.length + 1 ≤ fuel + 1 → e ≠ .outOfFuel) :=
    ⟨fun isEol => absurd isEol plain.notEol, fun _ => plain.notFuel⟩
  simp only [decodeInterface] at run
  split at run
  · rename_i found middle read
    cases run
    rcases kind_error ready.fresh read with ⟨rfl, same, -⟩ | plain
    · exact ⟨fun _ => same, fun _ => by decide⟩
    · exact ofPlain plain
  · rename_i size middle read
    obtain ⟨heads, ahead, -⟩ := kind_ok ready.sound ready.bounded ready.fresh read
    obtain ⟨enterReady, shorter⟩ := heads.enter_ready ready
    rcases decodeListSlice_error ahead run with plain | failed
    · exact ofPlain plain
    · obtain ⟨notEol, notFuel⟩ := ih.items_error enterReady failed
      exact ⟨fun isEol => absurd isEol notEol, fun enough => notFuel (by omega)⟩
  · rename_i kind size middle notList read
    obtain ⟨heads, ahead, -⟩ := kind_ok ready.sound ready.bounded ready.fresh read
    split at run
    · rename_i failed
      cases run
      exact ofPlain (bytes_error ahead failed)
    · cases run

/-- No encoding is empty. -/
theorem Item.encode_pos (v : Item) : 0 < v.encode.length := by
  cases v with
  | str b =>
    simp only [encode, encodeStr]
    split
    · rename_i single
      match b, single with
      | [byte], _ => simp
    · have := header_pos 0x80 0xB7 b.length
      rw [List.length_append]
      omega
  | list items =>
    have := header_pos 0xC0 0xF7 (encodeAll items).length
    rw [encode, List.length_append]
    omega

/-- One element more of a list that is read. -/
theorem Outcomes.items_ok_step (ih : Outcomes fuel) (ready : s.Ready)
    (run : decodeSliceElems (fuel + 1) s = (.ok items, next))
    : Consumed (encodeAll items) s next := by
  simp only [decodeSliceElems] at run
  split at run
  · rename_i left ended
    cases run
    obtain rfl := (ih.item_error ready ended).1 rfl
    simpa using Consumed.nil ready.sound ready.fresh
  · cases run
  · rename_i item middle first
    have consumed := ih.item_ok ready first
    split at run
    · cases run
    · rename_i rest left others
      cases run
      rw [encodeAll_cons]
      exact consumed.trans (ih.items_ok (consumed.ready ready) others) ready.bounded

/-- One element more of a list that fails. -/
theorem Outcomes.items_error_step (ih : Outcomes fuel)
    (ready : s.Ready) (run : decodeSliceElems (fuel + 1) s = (.error e, next))
    : e ≠ .eol ∧ (2 * s.r.length + 2 ≤ fuel + 1 → e ≠ .outOfFuel) := by
  simp only [decodeSliceElems] at run
  split at run
  · cases run
  · rename_i found middle notEol failed
    cases run
    exact ⟨notEol, fun enough => (ih.item_error ready failed).2 (by omega)⟩
  · rename_i item middle first
    have consumed := ih.item_ok ready first
    have shorter : middle.r.length < s.r.length := by
      have positive := item.encode_pos
      rw [consumed.input, List.length_append]
      omega
    split at run
    · rename_i failed
      cases run
      obtain ⟨notEol, notFuel⟩ := ih.items_error (consumed.ready ready) failed
      exact ⟨notEol, fun enough => notFuel (by omega)⟩
    · cases run

/-- The outcomes of decoding; induction on the bound of the recursion. -/
theorem outcomes (fuel : Nat) : Outcomes fuel := by
  induction fuel with
  | zero =>
    refine ⟨?_, ?_, ?_, ?_⟩
    · intro s next v _ run
      simp [decodeInterface] at run
    · intro s next items _ run
      simp [decodeSliceElems] at run
    · intro s next e _ run
      simp only [decodeInterface, Prod.mk.injEq, Except.error.injEq] at run
      exact ⟨fun _ => run.2.symm, fun enough => absurd enough (by omega)⟩
    · intro s next e _ run
      simp only [decodeSliceElems, Prod.mk.injEq, Except.error.injEq] at run
      exact ⟨run.1 ▸ by decide, fun enough => absurd enough (by omega)⟩
  | succ fuel ih =>
    exact ⟨ih.item_ok_step, ih.items_ok_step, ih.item_error_step, ih.items_error_step⟩

variable (small : b.length < 2 ^ 64)
include small

theorem Stream.ofBytes_ready : (ofBytes b (uint64 b.length)).Ready := by
  have length : uint64 b.length = b.length := Nat.mod_eq_of_lt small
  refine ⟨⟨rfl, ?_, by simp [ofBytes]⟩, small, rfl⟩
  simp only [ofBytes, length]
  split <;> rfl

/-- What is decoded has the input as its encoding. -/
theorem decodeBytes_ok (run : decodeBytes b = .ok v) : v.encode = b := by
  unfold decodeBytes at run
  split at run
  · cases run
  · rename_i found left decoded
    split at run
    · cases run
    · rename_i atEnd
      cases run
      have consumed := (outcomes _).item_ok (ofBytes_ready small) decoded
      have empty : left.r = [] := List.length_eq_zero_iff.mp (by omega)
      have input := consumed.input
      rw [empty, List.append_nil] at input
      exact input.symm

/-- The fuel is always enough. -/
theorem decodeBytes_ne_outOfFuel : decodeBytes b ≠ .error .outOfFuel := by
  intro run
  unfold decodeBytes at run
  split at run
  · rename_i failed
    cases run
    have bound := ((outcomes _).item_error (ofBytes_ready small) failed).2
    exact bound (by simp [ofBytes]) rfl
  · split at run
    · cases run
    · cases run

end GoBinacoin.Rlp
