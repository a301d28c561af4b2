import GoBinacoin.Consensus.Difficulty

/-! The calculators with 256-bit words compute what those with big integers do, as long as nothing
leaves the words.
-/

namespace GoBinacoin.Consensus

open Params Types

/-- A word holds an integer. -/
def Holds (w : U256) (x : Int) : Prop := (w.toNat : Int) = x

variable {w : U256} {x : Int}

/-- The minimum is taken the same way. -/
theorem Holds.atLeastMinimum (holds : Holds w x)
    : Holds (atLeastMinimumU256 w) (atLeastMinimum x) := by
  have minimum : (BitVec.ofNat 256 minimumDifficulty).toNat = minimumDifficulty := rfl
  unfold Holds at holds
  unfold atLeastMinimumU256 Consensus.atLeastMinimum
  by_cases below : w < BitVec.ofNat 256 minimumDifficulty
  · have less := BitVec.lt_def.mp below
    rw [if_pos below, if_pos (by omega)]
    exact congrArg Nat.cast minimum
  · have enough : ¬w.toNat < (BitVec.ofNat 256 minimumDifficulty).toNat :=
      fun less => below (BitVec.lt_def.mpr less)
    rw [if_neg below, if_neg (by omega)]
    exact holds

/-- Adding a power of two, as long as the sum fits. -/
theorem Holds.addPower {shift : UInt64} (holds : Holds w x) (small : x + 2 ^ shift.toNat < 2 ^ 256)
    : Holds (addPowerU256 w shift) (x + 2 ^ shift.toNat) := by
  unfold Holds at holds ⊢
  have sum : w.toNat + 2 ^ shift.toNat < 2 ^ 256 := by
    subst holds
    exact_mod_cast small
  have one : (1#256).toNat = 1 := rfl
  have power : (1#256 <<< shift.toNat).toNat = 2 ^ shift.toNat := by
    rw [BitVec.toNat_shiftLeft, Nat.shiftLeft_eq, one, Nat.one_mul]
    exact Nat.mod_eq_of_lt (by omega)
  rw [addPowerU256, BitVec.toNat_add, power, Nat.mod_eq_of_lt sum, ← holds]
  exact Nat.cast_add _ _

/-- The bomb is the same if the sum fits. -/
theorem Holds.addBomb {x periodCount : Int} {count : UInt64} (holds : Holds w x)
    (counted : (count.toNat : Int) = periodCount) (small : addBomb x periodCount < 2 ^ 256)
    : Holds (if count > 1 then addPowerU256 w (count - 2) else w) (addBomb x periodCount) := by
  have one : (1 : UInt64).toNat = 1 := rfl
  have two : (2 : UInt64).toNat = 2 := rfl
  unfold Consensus.addBomb at small ⊢
  by_cases several : count > 1
  · have many : 1 < count.toNat := by rwa [gt_iff_lt, UInt64.lt_iff_toNat_lt, one] at several
    have shift : (count - 2).toNat = (periodCount - 2).toNat := by
      rw [UInt64.toNat_sub_of_le _ _ (UInt64.le_iff_toNat_le.mpr (by omega)), two]
      omega
    rw [if_pos several]
    rw [if_pos (by omega), ← shift] at small ⊢
    exact holds.addPower small
  · have few : count.toNat ≤ 1 := by
      rwa [gt_iff_lt, UInt64.not_lt, UInt64.le_iff_toNat_le] at several
    rwa [if_neg several, if_neg (by omega)]

/-- The adjustment as an integer. -/
def signed (factor : UInt64 × Bool) : Int :=
  if factor.2 then -(factor.1.toNat : Int) else factor.1.toNat

/-- An adjustment that keeps every difficulty in its word. -/
structure Modest (factor : UInt64 × Bool) : Prop where
  negative : factor.1.toNat ≤ 99
  positive : factor.2 = false → factor.1.toNat ≤ 2

theorem toNat_shift (d : Nat) (small : d < 2 ^ 256)
    : (BitVec.ofNat 256 d >>> difficultyBoundDivisor).toNat = d / 2048 := by
  rw [BitVec.toNat_ushiftRight, BitVec.toNat_ofNat, Nat.mod_eq_of_lt small,
    Nat.shiftRight_eq_div_pow]
  rfl

/-- The adjustment by a factor, with its sign apart. -/
theorem holds_adjust {d : Nat} {factor : UInt64 × Bool} (small : d < 2 ^ 255)
    (modest : Modest factor)
    : Holds (adjustU256 (BitVec.ofNat 256 d) (BitVec.ofNat 256 d >>> difficultyBoundDivisor) factor)
        (d + (d : Int) / bigDifficultyBoundDivisor * signed factor) := by
  obtain ⟨k, negative⟩ := factor
  have few : k.toNat ≤ 99 := modest.negative
  have product : d / 2048 * k.toNat ≤ d / 2048 * 99 := Nat.mul_le_mul_left _ few
  have whole : (BitVec.ofNat 256 d).toNat = d := by
    rw [BitVec.toNat_ofNat, Nat.mod_eq_of_lt (by omega)]
  have scaled : ((BitVec.ofNat 256 d >>> difficultyBoundDivisor) * BitVec.ofNat 256 k.toNat).toNat
      = d / 2048 * k.toNat := by
    rw [BitVec.toNat_mul, toNat_shift d (by omega), BitVec.toNat_ofNat,
      Nat.mod_eq_of_lt (a := k.toNat) (by omega), Nat.mod_eq_of_lt (by omega)]
  have cast : ((d / 2048 * k.toNat : Nat) : Int) = (d : Int) / 2048 * k.toNat := by push_cast; rfl
  unfold Holds adjustU256 signed bigDifficultyBoundDivisor
  rcases negative with _ | _
  · have positive : k.toNat ≤ 2 := modest.positive rfl
    have product : d / 2048 * k.toNat ≤ d / 2048 * 2 := Nat.mul_le_mul_left _ positive
    dsimp only
    rw [if_neg Bool.false_ne_true, if_neg Bool.false_ne_true, BitVec.toNat_add, whole, scaled,
      Nat.mod_eq_of_lt (by omega), ← cast]
    omega
  · dsimp only [if_true]
    rw [if_pos rfl, if_pos rfl, BitVec.toNat_sub_of_le, whole, scaled]
    · rw [mul_neg, ← cast]
      omega
    · rw [BitVec.le_def, whole, scaled]
      omega

variable (elapsed : UInt64)

/-- The factor of Homestead is between -99 and 1. -/
theorem homesteadFactor_modest : Modest (homesteadFactor elapsed) := by
  have hundred : (100 : UInt64).toNat = 100 := rfl
  have ten : (10 : UInt64).toNat = 10 := rfl
  simp only [homesteadFactor]
  split
  · exact ⟨by decide, fun _ => by decide⟩
  · rename_i nonzero
    split
    · exact ⟨by decide, nofun⟩
    · rename_i few
      refine ⟨?_, nofun⟩
      rw [ge_iff_le, UInt64.not_le, UInt64.lt_iff_toNat_lt] at few
      have positive : 1 ≤ (elapsed / 10) := UInt64.le_iff_toNat_le.mpr
        (Nat.one_le_iff_ne_zero.mpr fun zero => nonzero (UInt64.toNat_inj.mp zero))
      have below := UInt64.toNat_sub_of_le _ _ positive
      dsimp only
      omega

/-- The factor with its sign is the one of the integers. -/
theorem signed_homesteadFactor
    : signed (homesteadFactor elapsed)
      = if 1 - (elapsed.toNat : Int) / 10 < -99 then -99 else 1 - (elapsed.toNat : Int) / 10 := by
  have hundred : (100 : UInt64).toNat = 100 := rfl
  have one : (1 : UInt64).toNat = 1 := rfl
  have quotient : (elapsed / 10).toNat = elapsed.toNat / 10 := UInt64.toNat_div _ _
  simp only [homesteadFactor]
  split
  · rename_i zero
    have : elapsed.toNat / 10 = 0 := quotient ▸ zero ▸ rfl
    have early : signed (1, false) = 1 := by decide
    rw [if_neg (by omega), early]
    omega
  · rename_i nonzero
    have positive : 1 ≤ elapsed.toNat / 10 := Nat.one_le_iff_ne_zero.mpr fun zero =>
      nonzero (UInt64.toNat_inj.mp (quotient.trans zero))
    split
    · rename_i many
      rw [ge_iff_le, UInt64.le_iff_toNat_le, quotient, hundred] at many
      have late : signed (99, true) = -99 := by decide
      rw [late]
      split <;> omega
    · rename_i few
      rw [ge_iff_le, UInt64.not_le, UInt64.lt_iff_toNat_lt, quotient, hundred] at few
      have less : (elapsed / 10 - 1).toNat = elapsed.toNat / 10 - 1 := by
        rw [UInt64.toNat_sub_of_le _ _ (UInt64.le_iff_toNat_le.mpr (by omega)), quotient, one]
      simp only [signed, less, if_true]
      rw [if_neg (by omega)]
      omega

/-- What the parent's uncles give. -/
def uncleBonus (uncleHash : Hash) : Int := if uncleHash = emptyUncleHash then 1 else 2

variable (uncleHash : Hash)

theorem toNat_uncleBonus
    : ((if uncleHash ≠ emptyUncleHash then 2 else 1 : UInt64).toNat : Int)
      = uncleBonus uncleHash := by
  unfold uncleBonus
  by_cases empty : uncleHash = emptyUncleHash <;> simp [empty]

theorem uncleBonus_range : uncleBonus uncleHash = 1 ∨ uncleBonus uncleHash = 2 := by
  unfold uncleBonus
  split <;> simp

/-- The factor of Byzantium is between -99 and 2. -/
theorem byzantiumFactor_modest : Modest (byzantiumFactor elapsed uncleHash) := by
  have most : (99 : UInt64).toNat = 99 := rfl
  have bonus := toNat_uncleBonus uncleHash
  have range := uncleBonus_range uncleHash
  simp only [byzantiumFactor]
  generalize (if uncleHash ≠ emptyUncleHash then 2 else 1 : UInt64) = c at bonus ⊢
  refine ⟨?_, fun positive => ?_⟩
  · generalize (if elapsed / 9 ≥ c then elapsed / 9 - c else c - elapsed / 9) = x
    dsimp only
    split
    · exact most.le
    · rename_i few
      rwa [gt_iff_lt, UInt64.not_lt, UInt64.le_iff_toNat_le] at few
  · have early := UInt64.not_le.mp (of_decide_eq_false positive)
    have less := UInt64.toNat_sub_of_le _ _ (UInt64.le_of_lt early)
    have few : ¬c - elapsed / 9 > 99 := by
      rw [gt_iff_lt, UInt64.not_lt, UInt64.le_iff_toNat_le, most]
      omega
    rw [if_neg (UInt64.not_le.mpr early), if_neg few]
    dsimp only
    omega

/-- The factor with its sign is the one of the integers. -/
theorem signed_byzantiumFactor
    : signed (byzantiumFactor elapsed uncleHash)
      = if uncleBonus uncleHash - (elapsed.toNat : Int) / 9 < -99 then -99
        else uncleBonus uncleHash - (elapsed.toNat : Int) / 9 := by
  have most : (99 : UInt64).toNat = 99 := rfl
  have quotient : (elapsed / 9).toNat = elapsed.toNat / 9 := UInt64.toNat_div _ _
  have bonus := toNat_uncleBonus uncleHash
  have range := uncleBonus_range uncleHash
  simp only [byzantiumFactor]
  generalize (if uncleHash ≠ emptyUncleHash then 2 else 1 : UInt64) = c at bonus ⊢
  by_cases late : elapsed / 9 ≥ c
  · have less := UInt64.toNat_sub_of_le _ _ late
    have order := UInt64.le_iff_toNat_le.mp late
    rw [if_pos late, decide_eq_true late]
    split
    · rename_i many
      rw [gt_iff_lt, UInt64.lt_iff_toNat_lt, less, most, quotient] at many
      have lowest : signed (99, true) = -99 := by decide
      rw [lowest, if_pos (by omega)]
    · rename_i few
      rw [gt_iff_lt, UInt64.not_lt, UInt64.le_iff_toNat_le, less, most, quotient] at few
      simp only [signed, less, quotient, if_true]
      rw [if_neg (by omega)]
      omega
  · have early := UInt64.not_le.mp late
    have less := UInt64.toNat_sub_of_le _ _ (UInt64.le_of_lt early)
    have order := UInt64.lt_iff_toNat_lt.mp early
    have few : ¬c - elapsed / 9 > 99 := by
      rw [gt_iff_lt, UInt64.not_lt, UInt64.le_iff_toNat_le, most]
      omega
    rw [if_neg late, decide_eq_false late, if_neg few, if_neg (by omega)]
    simp only [signed, less, Bool.false_eq_true, if_false]
    omega

section Calculators

variable {time : UInt64} {parent : Header}

theorem toNat_elapsed (later : parent.time < time)
    : ((time - parent.time).toNat : Int) = (time.toNat : Int) - parent.time.toNat := by
  have order := UInt64.lt_iff_toNat_lt.mp later
  rw [UInt64.toNat_sub_of_le _ _ (UInt64.le_of_lt later)]
  omega

theorem toNat_periodCount (number : parent.number < 2 ^ 64 - 1)
    : (((UInt64.ofNat parent.number + 1) / expDiffPeriodUint).toNat : Int)
      = (parent.number + 1) / expDiffPeriod := by
  have one : (1 : UInt64).toNat = 1 := rfl
  have period : expDiffPeriodUint.toNat = expDiffPeriod := rfl
  rw [UInt64.toNat_div, UInt64.toNat_add, UInt64.toNat_ofNat', one, period,
    Nat.mod_eq_of_lt (a := parent.number) (by omega), Nat.mod_eq_of_lt (by omega)]
  push_cast
  rfl

theorem minimum_le_atLeastMinimum (x : Int) : (minimumDifficulty : Int) ≤ atLeastMinimum x := by
  unfold atLeastMinimum
  split <;> omega

theorem max_addBomb (x periodCount : Int)
    : (if periodCount > 1 then max (addBomb (atLeastMinimum x) periodCount) minimumDifficulty
        else atLeastMinimum x)
      = addBomb (atLeastMinimum x) periodCount := by
  have enough := minimum_le_atLeastMinimum x
  unfold addBomb
  split
  · have power : (0 : Int) ≤ 2 ^ (periodCount - 2).toNat := Int.pow_nonneg (by decide)
    exact max_eq_left (by omega)
  · rfl

theorem holds_step {quick quick' : Prop} [Decidable quick] [Decidable quick'] {d : Nat}
    (small : d < 2 ^ 255) (same : quick ↔ quick')
    : Holds
        (if quick then
          BitVec.ofNat 256 d + BitVec.ofNat 256 d >>> difficultyBoundDivisor
        else
          BitVec.ofNat 256 d - BitVec.ofNat 256 d >>> difficultyBoundDivisor)
        (if quick' then
          (d : Int) + d / bigDifficultyBoundDivisor
        else
          d - d / bigDifficultyBoundDivisor) := by
  simp only [← same]
  split
  · have up : Modest (1, false) := ⟨by decide, fun _ => by decide⟩
    simpa [adjustU256, signed] using holds_adjust small up
  · have down : Modest (1, true) := ⟨by decide, nofun⟩
    simpa [adjustU256, signed, sub_eq_add_neg] using holds_adjust small down

variable (small : parent.difficulty < 2 ^ 255) (number : parent.number < 2 ^ 64 - 1)
  (later : parent.time < time)
include small number later

/-- The calculator of Frontier, as long as the result fits in 256 bits. -/
theorem frontier_eq (fits : calcDifficultyFrontier time parent < 2 ^ 256)
    : (calcDifficultyFrontierU256 time parent : Int) = calcDifficultyFrontier time parent := by
  have limit : frontierDurationLimit.toNat = 13 := rfl
  have elapsed := toNat_elapsed later
  have quick : time - parent.time < frontierDurationLimit
      ↔ (time.toNat : Int) - parent.time.toNat < durationLimit := by
    rw [UInt64.lt_iff_toNat_lt, limit, ← elapsed, durationLimit]
    omega
  simp only [calcDifficultyFrontier, max_addBomb] at fits ⊢
  exact (holds_step small quick).atLeastMinimum.addBomb (toNat_periodCount number) fits

theorem homestead_eq (fits : calcDifficultyHomestead time parent < 2 ^ 256)
    : (calcDifficultyHomesteadU256 time parent : Int) = calcDifficultyHomestead time parent := by
  have adjusted := holds_adjust small (homesteadFactor_modest (time - parent.time))
  rw [signed_homesteadFactor, toNat_elapsed later] at adjusted
  have counted := toNat_periodCount number
  rw [UInt64.add_comm] at counted
  exact adjusted.atLeastMinimum.addBomb counted fits

omit small number later

/-- The periods since the bomb's delay, as the source counts them. -/
def delayedPeriods (pNum bombDelayFromParent : UInt64) : UInt64 :=
  if pNum ≥ bombDelayFromParent then (pNum - bombDelayFromParent) / expDiffPeriodUint else 0

/-- The two tests before the bomb are one test on the number of periods. -/
theorem delayed_eq (y : U256) (pNum bombDelayFromParent : UInt64)
    : (if pNum ≥ bombDelayFromParent then
        if pNum - bombDelayFromParent ≥ 2 * expDiffPeriodUint then
          addPowerU256 y ((pNum - bombDelayFromParent) / expDiffPeriodUint - 2)
        else
          y
      else
        y)
      = if delayedPeriods pNum bombDelayFromParent > 1 then
          addPowerU256 y (delayedPeriods pNum bombDelayFromParent - 2)
        else
          y := by
  have one : (1 : UInt64).toNat = 1 := rfl
  have period : expDiffPeriodUint.toNat = 100000 := rfl
  have periods : (2 * expDiffPeriodUint).toNat = 200000 := rfl
  unfold delayedPeriods
  split
  · have several : pNum - bombDelayFromParent ≥ 2 * expDiffPeriodUint
        ↔ (pNum - bombDelayFromParent) / expDiffPeriodUint > 1 := by
      rw [ge_iff_le, gt_iff_lt, UInt64.le_iff_toNat_le, UInt64.lt_iff_toNat_lt, UInt64.toNat_div,
        one, period, periods]
      omega
    simp only [several]
  · rw [if_neg (by decide)]

/-- The number of periods behind the delay does not underflow. -/
theorem toNat_delayedPeriods {bombDelay : Int} (positive : 1 ≤ bombDelay)
    (bounded : bombDelay ≤ 2 ^ 64) (number : parent.number < 2 ^ 64 - 1)
    : ((delayedPeriods (UInt64.ofNat parent.number)
        (UInt64.ofNat bombDelay.natAbs - 1)).toNat : Int)
      = (if (parent.number : Int) ≥ bombDelay - 1 then parent.number - (bombDelay - 1) else 0)
        / expDiffPeriod := by
  have period : expDiffPeriodUint.toNat = expDiffPeriod := rfl
  have zero : (0 : UInt64).toNat = 0 := rfl
  have one : (1 : UInt64).toNat = 1 := rfl
  -- A delay of 2^64 wraps to 0, and its predecessor back.
  have delay : ((UInt64.ofNat bombDelay.natAbs - 1).toNat : Int) = bombDelay - 1 := by
    rw [UInt64.toNat_sub, UInt64.toNat_ofNat', one]
    omega
  have parentNumber : (UInt64.ofNat parent.number).toNat = parent.number := by
    rw [UInt64.toNat_ofNat', Nat.mod_eq_of_lt (by omega)]
  unfold delayedPeriods
  by_cases reached : UInt64.ofNat parent.number ≥ UInt64.ofNat bombDelay.natAbs - 1
  · have order := UInt64.le_iff_toNat_le.mp reached
    rw [if_pos reached, if_pos (by omega), UInt64.toNat_div, UInt64.toNat_sub_of_le _ _ reached,
      parentNumber, period, Int.natCast_ediv, Int.ofNat_sub (by omega), delay]
  · have order := UInt64.lt_iff_toNat_lt.mp (UInt64.not_le.mp reached)
    rw [if_neg reached, if_neg (by omega), zero]
    rfl

/-- The calculators with a delayed bomb, as long as the result fits in 256 bits. -/
theorem calculator_eq {bombDelay : Int} (positive : 1 ≤ bombDelay) (bounded : bombDelay ≤ 2 ^ 64)
    (small : parent.difficulty < 2 ^ 255) (number : parent.number < 2 ^ 64 - 1)
    (later : parent.time < time) (fits : makeDifficultyCalculator bombDelay time parent < 2 ^ 256)
    : (makeDifficultyCalculatorU256 bombDelay time parent : Int)
      = makeDifficultyCalculator bombDelay time parent := by
  have adjusted := holds_adjust small (byzantiumFactor_modest (time - parent.time) parent.uncleHash)
  rw [signed_byzantiumFactor, toNat_elapsed later] at adjusted
  have counted := toNat_delayedPeriods positive bounded number
  simp only [makeDifficultyCalculatorU256, delayed_eq]
  have bonus : ∀ x : Int, (if parent.uncleHash = emptyUncleHash then 1 - x else 2 - x)
      = uncleBonus parent.uncleHash - x := by
    intro x
    unfold uncleBonus
    split <;> rfl
  simp only [makeDifficultyCalculator, bonus] at fits ⊢
  exact adjusted.atLeastMinimum.addBomb counted fits

end Calculators

/-- For every parent with a difficulty below 2^255 the calculators with words return what the others
do, as long as that is below 2^256 and the bomb's delay is at most 2^64.
-/
theorem calculators_agree (time : UInt64) (parent : Header) (small : parent.difficulty < 2 ^ 255)
    (number : parent.number < 2 ^ 64 - 1) (later : parent.time < time)
    : (calcDifficultyFrontier time parent < 2 ^ 256
        → (calcDifficultyFrontierU256 time parent : Int) = calcDifficultyFrontier time parent)
      ∧ (calcDifficultyHomestead time parent < 2 ^ 256
        → (calcDifficultyHomesteadU256 time parent : Int) = calcDifficultyHomestead time parent)
      ∧ ∀ bombDelay : Int, 1 ≤ bombDelay → bombDelay ≤ 2 ^ 64
        → makeDifficultyCalculator bombDelay time parent < 2 ^ 256
        → (makeDifficultyCalculatorU256 bombDelay time parent : Int)
          = makeDifficultyCalculator bombDelay time parent :=
  ⟨frontier_eq small number later, homestead_eq small number later,
    fun _ positive bounded => calculator_eq positive bounded small number later⟩

/-- The parent of the first block of the third period. -/
def lateParent : Header := { difficulty := 131072, number := 200000 }

theorem calculators_agree_late
    : calcDifficultyFrontierU256 10 lateParent = 131137
      ∧ (calcDifficultyFrontierU256 10 lateParent : Int) = calcDifficultyFrontier 10 lateParent
      ∧ (calcDifficultyHomesteadU256 10 lateParent : Int) = calcDifficultyHomestead 10 lateParent
      ∧ (makeDifficultyCalculatorU256 (2 ^ 64) 10 lateParent : Int)
        = makeDifficultyCalculator (2 ^ 64) 10 lateParent := by
  have agree := calculators_agree 10 lateParent (by decide) (by decide) (by decide)
  exact ⟨by decide, agree.1 (by decide), agree.2.1 (by decide),
    agree.2.2 (2 ^ 64) (by decide) (by decide) (by decide)⟩

/-- A delay of 2^64 + 1 is cut to 1: the bomb goes off where it should be far away. -/
theorem calculators_differ_beyond
    : makeDifficultyCalculator (2 ^ 64 + 1) 10 lateParent = 131136
      ∧ makeDifficultyCalculatorU256 (2 ^ 64 + 1) 10 lateParent = 131137 := by
  constructor <;> decide

end GoBinacoin.Consensus
