import Mathlib.Algebra.Order.Group.Nat
import Mathlib.Tactic.Ring
import Mathlib.Data.List.Induction
import Mathlib.Data.Nat.Log

/-! Big-endian byte strings: fixed-width numerals, their values, and the shortest numeral
of a number.
-/

namespace BigEndian

/-- The number a byte string denotes, most significant byte first. -/
def ofBE (bytes : List UInt8) : Nat := bytes.foldl (fun acc byte => acc * 256 + byte.toNat) 0

/-- The last `width` bytes of `n`, most significant byte first. -/
def toBE : Nat → Nat → List UInt8
  | 0, _ => []
  | width + 1, n => toBE width (n / 256) ++ [UInt8.ofNat n]

@[simp]
theorem length_toBE (width n : Nat) : (toBE width n).length = width := by
  induction width generalizing n with
  | zero => rfl
  | succ width ih => simp [toBE, ih]

@[simp]
theorem ofBE_nil : ofBE [] = 0 := rfl

variable (bytes : List UInt8)

theorem ofBE_append_singleton (byte : UInt8)
    : ofBE (bytes ++ [byte]) = ofBE bytes * 256 + byte.toNat := by
  simp [ofBE]

/-- A number is bounded by its length. -/
theorem ofBE_lt : ofBE bytes < 256 ^ bytes.length := by
  induction bytes using List.reverseRecOn with
  | nil => simp
  | append_singleton bytes byte ih =>
    have small := byte.toNat_lt
    rw [ofBE_append_singleton, List.length_append, List.length_singleton, pow_succ]
    omega

/-- Only the lowest digits are kept. -/
theorem ofBE_toBE (width n : Nat) : ofBE (toBE width n) = n % 256 ^ width := by
  induction width generalizing n with
  | zero => simp [toBE, Nat.mod_one]
  | succ width ih =>
    have byte : (UInt8.ofNat n).toNat = n % 256 := UInt8.toNat_ofNat'
    rw [toBE, ofBE_append_singleton, ih, byte, pow_succ', Nat.mod_mul]
    ring

/-- Digits are those of the number they give, at their length. -/
theorem toBE_ofBE : toBE bytes.length (ofBE bytes) = bytes := by
  induction bytes using List.reverseRecOn with
  | nil => rfl
  | append_singleton bytes byte ih =>
    have small := byte.toNat_lt
    have high : (ofBE bytes * 256 + byte.toNat) / 256 = ofBE bytes := by omega
    have low : UInt8.ofNat (ofBE bytes * 256 + byte.toNat) = byte := by
      apply UInt8.toNat_inj.mp
      rw [UInt8.toNat_ofNat']
      omega
    rw [List.length_append, List.length_singleton, toBE, ofBE_append_singleton, high, ih, low]

theorem ofBE_cons (byte : UInt8) (bytes : List UInt8)
    : ofBE (byte :: bytes) = byte.toNat * 256 ^ bytes.length + ofBE bytes := by
  induction bytes using List.reverseRecOn with
  | nil => simp [ofBE]
  | append_singleton bytes last ih =>
    rw [← List.cons_append, ofBE_append_singleton, ih, ofBE_append_singleton,
      List.length_append, List.length_singleton, pow_succ]
    ring

variable {byte : UInt8} {n width : Nat}

/-- A numeral without a leading zero is at least the power of its remaining width. -/
theorem pow_le_ofBE (bytes : List UInt8) (nonzero : byte ≠ 0)
    : 256 ^ bytes.length ≤ ofBE (byte :: bytes) := by
  have positive : 0 < byte.toNat := by
    rcases Nat.eq_zero_or_pos byte.toNat with zero | positive
    · exact absurd (UInt8.toNat_inj.mp (by simpa using zero)) nonzero
    · exact positive
  rw [ofBE_cons]
  calc 256 ^ bytes.length = 1 * 256 ^ bytes.length := (one_mul _).symm
    _ ≤ byte.toNat * 256 ^ bytes.length := Nat.mul_le_mul_right _ positive
    _ ≤ _ := Nat.le_add_right _ _

/-- The number of bytes of the shortest numeral, one for zero. -/
def byteLen (n : Nat) : Nat := Nat.log 256 n + 1

theorem byteLen_pos (n : Nat) : 0 < byteLen n := Nat.succ_pos _

/-- The length is enough. -/
theorem lt_pow_byteLen (n : Nat) : n < 256 ^ byteLen n := Nat.lt_pow_succ_log_self (by decide) n

/-- The width is determined by the powers of 256 around the number. -/
theorem byteLen_eq (lower : 256 ^ width ≤ n) (upper : n < 256 ^ (width + 1))
    : byteLen n = width + 1 := by
  rw [byteLen, Nat.log_eq_of_pow_le_of_lt_pow lower upper]

/-- No shorter length is enough. -/
theorem byteLen_le (positive : 0 < width) (upper : n < 256 ^ width) : byteLen n ≤ width := by
  rcases Nat.eq_zero_or_pos n with zero | nonzero
  · subst zero
    simpa [byteLen] using Nat.succ_le_of_lt positive
  · exact (Nat.log_lt_iff_lt_pow (by decide) nonzero.ne').mpr upper

/-- The shortest numeral of a nonzero number starts with a nonzero byte. -/
theorem toBE_byteLen_head (positive : 0 < n)
    : ∃ byte rest, toBE (byteLen n) n = byte :: rest ∧ byte ≠ 0 := by
  rcases split : toBE (byteLen n) n with _ | ⟨byte, rest⟩
  · have := congrArg List.length split
    simp [byteLen] at this
  refine ⟨byte, rest, rfl, ?_⟩
  intro zero
  subst zero
  have value := congrArg ofBE split
  have width := congrArg List.length split
  rw [ofBE_toBE, Nat.mod_eq_of_lt (lt_pow_byteLen n), ofBE_cons] at value
  simp only [UInt8.toNat_zero, Nat.zero_mul, Nat.zero_add] at value
  simp only [length_toBE, List.length_cons, byteLen, Nat.add_right_cancel_iff] at width
  have bound := ofBE_lt rest
  have low := Nat.pow_log_le_self 256 positive.ne'
  rw [← value, ← width] at bound
  omega

/-- A numeral without a leading zero is the shortest one of its value. -/
theorem toBE_byteLen_ofBE (bytes : List UInt8) (nonzero : byte ≠ 0)
    : toBE (byteLen (ofBE (byte :: bytes))) (ofBE (byte :: bytes)) = byte :: bytes := by
  have width : byteLen (ofBE (byte :: bytes)) = (byte :: bytes).length :=
    byteLen_eq (pow_le_ofBE bytes nonzero) (ofBE_lt (byte :: bytes))
  rw [width, toBE_ofBE]

end BigEndian
