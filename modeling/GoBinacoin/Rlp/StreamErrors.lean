import GoBinacoin.Rlp.StreamKind

/-! Which errors the stream methods report. The end of a list is reported by `Kind` alone and
leaves the stream as it was; the recursion bound is never reported by a method.
-/

namespace GoBinacoin.Rlp

/-- An error that is neither the end of a list nor the recursion bound. -/
structure Err.Plain (e : Err) : Prop where
  notEol : e ≠ .eol
  notFuel : e ≠ .outOfFuel

variable {s next : Stream} {e : Err} {size : Nat}

namespace Stream

variable {kind : Kind} {n : Nat}

/-- A read beyond a limit fails with a plain error. -/
theorem willRead_error (run : s.willRead n = (.error e, next)) : e.Plain := by
  have input {t : Stream} (run : t.willReadInput n = (.error e, next)) : e.Plain := by
    unfold willReadInput at run
    split at run
    · split at run
      · cases run
        exact ⟨by decide, by decide⟩
      · cases run
    · cases run
  unfold willRead at run
  split at run
  · exact input run
  · split at run
    · cases run
      exact ⟨by decide, by decide⟩
    · exact input run

/-- So does a byte that is missing. -/
theorem readByte_error (run : s.readByte = (.error e, next)) : e.Plain := by
  unfold readByte at run
  split at run
  · rename_i read
    cases run
    exact willRead_error read
  · split at run
    · cases run
      exact ⟨by decide, by decide⟩
    · cases run

/-- So do bytes that are missing. -/
theorem readFull_error (run : s.readFull n = (.error e, next)) : e.Plain := by
  unfold readFull at run
  split at run
  · rename_i read
    cases run
    exact willRead_error read
  · split at run
    · cases run
      exact ⟨by decide, by decide⟩
    · cases run

/-- So does a number with leading zeros or missing digits. -/
theorem readUint_error (run : s.readUint size = (.error e, next)) : e.Plain := by
  unfold readUint at run
  split at run
  · cases run
  · split at run
    · rename_i read
      cases run
      exact readByte_error read
    · cases run
  · split at run
    · rename_i read
      cases run
      exact readFull_error read
    · split at run
      · cases run
        exact ⟨by decide, by decide⟩
      · cases run

/-- So does a size that should have been short. -/
theorem readLongSize_error {found : Kind} {digits : Nat}
    (run : s.readLongSize kind digits = (found, size, some e, next))
    : e.Plain := by
  unfold readLongSize at run
  split at run
  · rename_i read
    cases run
    exact readUint_error read
  · simp only [Prod.mk.injEq] at run
    have canonical := run.2.2.1
    split at canonical
    · cases canonical
      exact ⟨by decide, by decide⟩
    · cases canonical

/-- So does a header that is no canonical one. -/
theorem readKind_error (run : s.readKind = (kind, size, some e, next)) : e.Plain := by
  unfold readKind at run
  split at run
  · rename_i read
    simp only [Prod.mk.injEq, Option.some.injEq] at run
    obtain ⟨-, -, reported, -⟩ := run
    split at reported
    · exact reported ▸ ⟨by decide, by decide⟩
    · exact reported ▸ readByte_error read
  · simp only at run
    split at run
    · cases run
    · split at run
      · cases run
      · split at run
        · exact readLongSize_error run
        · split at run
          · cases run
          · exact readLongSize_error run

/-- `Kind` on a stream without cached header: the end of the list, or a plain error. -/
theorem kind_error (fresh : s.kindAhead = none) (run : s.kind = (.error e, next))
    : (e = .eol ∧ next = s ∧ s.listLimit = some 0) ∨ e.Plain := by
  simp only [kind, fresh] at run
  split at run
  · rename_i atEnd
    cases run
    exact Or.inl ⟨rfl, rfl, atEnd⟩
  · right
    rcases read : s.readKind with ⟨kind, size, _ | found, middle⟩
    · simp only [read, Option.none_or, sizeError] at run
      split at run
      · rename_i reported
        cases run
        split_ifs at reported <;> cases reported
        · exact ⟨by decide, by decide⟩
        · exact ⟨by decide, by decide⟩
      · cases run
    · simp only [read, Option.some_or] at run
      cases run
      exact readKind_error read

/-- So does a string that is no canonical one. -/
theorem bytes_error (ahead : s.Ahead kind size) (run : s.bytes = (.error e, next)) : e.Plain := by
  simp only [bytes, kind_ahead ahead] at run
  cases kind with
  | byte => cases run
  | list =>
    cases run
    exact ⟨by decide, by decide⟩
  | string =>
    simp only at run
    split at run
    · rename_i read
      cases run
      exact readFull_error read
    · split at run
      · cases run
        exact ⟨by decide, by decide⟩
      · cases run

/-- So does a list that is left too early. -/
theorem listEnd_error (run : s.listEnd = (.error e, next)) : e.Plain := by
  unfold listEnd at run
  split at run
  · cases run
    exact ⟨by decide, by decide⟩
  · split at run
    · cases run
      exact ⟨by decide, by decide⟩
    · cases run

end Stream

end GoBinacoin.Rlp
