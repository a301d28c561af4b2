import GoBinacoin.Rlp.Stream

/-! What the reading methods of a stream consume, and when they succeed.
Limits are compared modulo 2^64, because entering a list subtracts its size from the
enclosing list without a check of its own.
-/

namespace GoBinacoin.Rlp

open BigEndian

theorem subU64_lt (a b : Nat) : subU64 a b < 2 ^ 64 := Nat.mod_lt _ (by decide)

variable {a b c : Nat}

theorem subU64_of_le (order : b ≤ a) (small : a < 2 ^ 64) : subU64 a b = a - b := by
  unfold subU64
  omega

theorem subU64_subU64 (small : b + c ≤ 2 ^ 64) : subU64 (subU64 a b) c = subU64 a (b + c) := by
  unfold subU64
  omega

/-- The limits after `n` bytes of the innermost list were consumed. -/
def advance (n : Nat) : List Nat → List Nat
  | [] => []
  | limit :: outer => subU64 limit n :: outer

theorem advance_advance (small : b + c ≤ 2 ^ 64) (stack : List Nat)
    : advance c (advance b stack) = advance (b + c) stack := by
  cases stack with
  | nil => rfl
  | cons limit outer => simp [advance, subU64_subU64 small]

variable {n : Nat} {s next : Stream}

theorem advance_bounded {stack : List Nat} (bounded : ∀ limit ∈ stack, limit < 2 ^ 64)
    : ∀ limit ∈ advance n stack, limit < 2 ^ 64 := by
  cases stack with
  | nil => simp [advance]
  | cons first outer =>
    intro limit member
    rcases List.mem_cons.mp member with same | later
    · exact same ▸ subU64_lt first n
    · exact bounded limit (.tail _ later)

/-- The input limit is exactly the unread input, and list limits are `uint64` values. -/
structure Stream.Sound (s : Stream) : Prop where
  limited : s.limited = true
  remaining : s.remaining = s.r.length
  bounded : ∀ limit ∈ s.stack, limit < 2 ^ 64

theorem Stream.Sound.advance_zero (sound : s.Sound) : advance 0 s.stack = s.stack := by
  cases stack : s.stack with
  | nil => rfl
  | cons limit outer =>
    have small := sound.bounded limit (by simp [stack])
    simp [advance, subU64_of_le (Nat.zero_le limit) small]

/-- `next` has consumed `n` bytes of `s`; cached header data is not compared. -/
structure Stream.After (n : Nat) (s next : Stream) : Prop where
  enough : n ≤ s.r.length
  r : next.r = s.r.drop n
  remaining : next.remaining = s.remaining - n
  stack : next.stack = advance n s.stack
  limited : next.limited = s.limited

/-- Two reads, one after the other. -/
theorem Stream.After.trans {middle : Stream} (first : After b s middle)
    (second : After c middle next) (small : s.r.length < 2 ^ 64)
    : After (b + c) s next := by
  have enough : b + c ≤ s.r.length := by
    have one := first.enough
    have two := second.enough
    rw [first.r, List.length_drop] at two
    omega
  refine ⟨enough, ?_, ?_, ?_, second.limited.trans first.limited⟩
  · rw [second.r, first.r, List.drop_drop]
  · rw [second.remaining, first.remaining, Nat.sub_sub]
  · rw [second.stack, first.stack, advance_advance (by omega)]

theorem Stream.After.sound (after : After n s next) (sound : s.Sound) : next.Sound := by
  refine ⟨after.limited.trans sound.limited, ?_, ?_⟩
  · rw [after.remaining, after.r, sound.remaining, List.length_drop]
  · rw [after.stack]
    exact advance_bounded sound.bounded

theorem Stream.After.append (after : After n s next) : s.r = s.r.take n ++ next.r := by
  rw [after.r, List.take_append_drop]

/-- There is room for `n` bytes in the innermost list. -/
def Stream.Fits (n : Nat) (s : Stream) : Prop := ∀ limit ∈ s.listLimit, n ≤ limit

section

variable (sound : s.Sound)

include sound

namespace Stream

/-- A read within the limits counts the bytes off in every enclosing list. -/
theorem willRead_eq (fits : s.Fits n) (enough : n ≤ s.r.length)
    : s.willRead n
      = (.ok (), { s with
          kindAhead := none, stack := advance n s.stack, remaining := s.remaining - n }) := by
  have input : ¬ n > s.remaining := by
    rw [sound.remaining]
    omega
  cases stack : s.stack with
  | nil => simp [willRead, willReadInput, stack, sound.limited, input, advance]
  | cons limit outer =>
    have room : n ≤ limit := fits limit (by simp [listLimit, stack])
    have small : limit < 2 ^ 64 := sound.bounded limit (by simp [stack])
    simp [willRead, willReadInput, stack, sound.limited, input, advance,
      room, subU64_of_le room small]

/-- Only a read within the limits succeeds. -/
theorem willRead_ok (run : s.willRead n = (.ok (), next)) : s.Fits n ∧ n ≤ s.r.length := by
  have input {t next : Stream} (limited : t.limited = true)
      (run : t.willReadInput n = (.ok (), next))
      : n ≤ t.remaining := by
    by_contra excess
    simp [willReadInput, limited, Nat.lt_of_not_le excess] at run
  rcases stack : s.stack with _ | ⟨limit, outer⟩
  · simp only [willRead, stack] at run
    refine ⟨by simp [Fits, listLimit, stack], ?_⟩
    have enough := input (by simpa using sound.limited) run
    exact sound.remaining ▸ enough
  · simp only [willRead, stack] at run
    split at run
    · cases run
    · rename_i room
      refine ⟨?_, ?_⟩
      · simp only [Fits, listLimit, stack, List.head?_cons, Option.mem_def,
          Option.some.injEq, forall_eq']
        omega
      · have enough := input (by simpa using sound.limited) run
        exact sound.remaining ▸ enough

variable {rest bytes : Bytes}

theorem readByte_eq {b : UInt8} (fits : s.Fits 1) (input : s.r = b :: rest)
    : s.readByte
      = (.ok b, { s with
          kindAhead := none, stack := advance 1 s.stack, remaining := s.remaining - 1,
          r := rest }) := by
  rw [readByte, willRead_eq sound fits (by simp [input])]
  simp [input]

/-- A byte that is read is the first of the input. -/
theorem readByte_ok {b : UInt8} (run : s.readByte = (.ok b, next))
    : s.r = b :: next.r ∧ After 1 s next ∧ next.kindAhead = none := by
  cases outcome : s.willRead 1 with
  | mk result middle =>
    rcases result with e | done
    · simp [readByte, outcome] at run
    obtain ⟨fits, enough⟩ := willRead_ok sound outcome
    rcases input : s.r with _ | ⟨first, rest⟩
    · simp [input] at enough
    · rw [readByte_eq sound fits input] at run
      cases run
      exact ⟨rfl, ⟨enough, by simp [input], rfl, rfl, rfl⟩, rfl⟩

theorem readFull_eq (fits : s.Fits n) (enough : n ≤ s.r.length)
    : s.readFull n
      = (.ok (s.r.take n), { s with
          kindAhead := none, stack := advance n s.stack, remaining := s.remaining - n,
          r := s.r.drop n }) := by
  rw [readFull, willRead_eq sound fits enough]
  simp [Nat.not_lt.mpr enough]

/-- Bytes that are read are the first of the input. -/
theorem readFull_ok (run : s.readFull n = (.ok bytes, next))
    : bytes = s.r.take n ∧ After n s next ∧ next.kindAhead = none := by
  cases outcome : s.willRead n with
  | mk result middle =>
    rcases result with e | done
    · simp [readFull, outcome] at run
    · obtain ⟨fits, enough⟩ := willRead_ok sound outcome
      rw [readFull_eq sound fits enough] at run
      cases run
      exact ⟨rfl, ⟨enough, rfl, rfl, rfl, rfl⟩, rfl⟩

theorem readFull_length (run : s.readFull n = (.ok bytes, next)) : bytes.length = n := by
  obtain ⟨taken, after, -⟩ := readFull_ok sound run
  rw [taken, List.length_take]
  exact Nat.min_eq_left after.enough

/-- A size that was read is a numeral of the given width, without a leading zero unless it
has one digit only.
-/
theorem readUint_ok {width : Nat} (positive : 0 < width) (run : s.readUint width = (.ok n, next))
    : ∃ digits,
        digits.length = width ∧ s.r = digits ++ next.r ∧ n = ofBE digits
        ∧ (width = 1 ∨ digits.head? ≠ some 0) ∧ After width s next := by
  match width, positive with
  | 1, _ =>
    simp only [readUint] at run
    split at run
    · cases run
    · rename_i b middle read
      cases run
      obtain ⟨input, after, -⟩ := readByte_ok sound read
      exact ⟨[b], rfl, by simpa using input, by simp [ofBE], Or.inl rfl, after⟩
  | more + 2, _ =>
    simp only [readUint] at run
    split at run
    · cases run
    · rename_i buffer middle read
      split at run
      · cases run
      · rename_i nonzero
        cases run
        obtain ⟨taken, after, -⟩ := readFull_ok sound read
        subst taken
        refine ⟨_, ?_, after.append, rfl, Or.inr nonzero, after⟩
        simp [after.enough]

/-- The digits of a long size are read back. -/
theorem readUint_eq
    (large : 56 ≤ n) (fits : s.Fits (byteLen n)) (input : s.r = toBE (byteLen n) n ++ rest)
    : ∃ next,
        s.readUint (byteLen n) = (.ok n, next) ∧ next.r = rest ∧ After (byteLen n) s next
        ∧ next.byteval = s.byteval := by
  have enough : byteLen n ≤ s.r.length := by simp [input]
  have value : ofBE (toBE (byteLen n) n) = n := by
    rw [ofBE_toBE, Nat.mod_eq_of_lt (lt_pow_byteLen n)]
  have taken : s.r.take (byteLen n) = toBE (byteLen n) n := by simp [input]
  have dropped : s.r.drop (byteLen n) = rest := by simp [input]
  obtain ⟨byte, digits, split, nonzero⟩ := toBE_byteLen_head (show 0 < n by omega)
  match width : byteLen n with
  | 0 => exact absurd width (byteLen_pos n).ne'
  | 1 =>
    rw [width] at split input fits value enough
    have single : digits = [] := by
      have lengths := congrArg List.length split
      simpa [length_toBE] using lengths.symm
    subst single
    rw [split] at value input
    have input : s.r = byte :: rest := input
    simp only [readUint]
    rw [readByte_eq sound fits input]
    have digit : byte.toNat = n := by simpa [ofBE] using value
    exact ⟨_, congrArg (fun size => (Except.ok size, _)) digit, rfl,
      ⟨enough, by simp [input], rfl, rfl, rfl⟩, rfl⟩
  | more + 2 =>
    simp only [readUint]
    rw [width] at fits enough taken dropped split value
    rw [readFull_eq sound fits enough, taken]
    simp only [split, List.head?_cons, Option.some.injEq, nonzero, if_false]
    rw [← split, value]
    exact ⟨_, rfl, dropped, ⟨enough, rfl, rfl, rfl, rfl⟩, rfl⟩

end Stream

end

end GoBinacoin.Rlp
