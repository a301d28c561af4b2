import GoBinacoin.Params.Config
import GoBinacoin.Types.Header

/-! The difficulty calculators of Ethash: with big integers, which headers are checked against, and
with 256-bit words.
-/

namespace GoBinacoin.Consensus

open Params Types

def minimumDifficulty : Nat := 131072

def expDiffPeriod : Nat := 100000

def bigDifficultyBoundDivisor : Int := 2048

def durationLimit : Int := 13

/-- Replace a difficulty below the minimum. -/
def atLeastMinimum (x : Int) : Int := if x < minimumDifficulty then minimumDifficulty else x

/-- The exponential factor, from the third period on. -/
def addBomb (x periodCount : Int) : Int :=
  if periodCount > 1 then x + 2 ^ (periodCount - 2).toNat else x

def calcDifficultyFrontier (time : UInt64) (parent : Header) : Int :=
  let adjust : Int := parent.difficulty / bigDifficultyBoundDivisor
  let diff : Int :=
    if (time.toNat : Int) - parent.time.toNat < durationLimit then
      parent.difficulty + adjust
    else
      parent.difficulty - adjust
  let diff := atLeastMinimum diff
  let periodCount : Int := (parent.number + 1) / expDiffPeriod
  if periodCount > 1 then max (addBomb diff periodCount) minimumDifficulty else diff

def calcDifficultyHomestead (time : UInt64) (parent : Header) : Int :=
  let x : Int := 1 - ((time.toNat : Int) - parent.time.toNat) / 10
  let x := if x < -99 then -99 else x
  let y : Int := parent.difficulty / bigDifficultyBoundDivisor
  let x := atLeastMinimum (parent.difficulty + y * x)
  addBomb x ((parent.number + 1) / expDiffPeriod)

def makeDifficultyCalculator (bombDelay : Int) (time : UInt64) (parent : Header) : Int :=
  let bombDelayFromParent := bombDelay - 1
  let x : Int := ((time.toNat : Int) - parent.time.toNat) / 9
  let x := if parent.uncleHash = emptyUncleHash then 1 - x else 2 - x
  let x := if x < -99 then -99 else x
  let y : Int := parent.difficulty / bigDifficultyBoundDivisor
  let x := atLeastMinimum (parent.difficulty + y * x)
  let fakeBlockNumber : Int :=
    if (parent.number : Int) ≥ bombDelayFromParent then parent.number - bombDelayFromParent else 0
  addBomb x (fakeBlockNumber / expDiffPeriod)

def calcDifficultyEip3554 : UInt64 → Header → Int := makeDifficultyCalculator 9700000

def calcDifficultyEip2384 : UInt64 → Header → Int := makeDifficultyCalculator 9000000

def calcDifficultyConstantinople : UInt64 → Header → Int := makeDifficultyCalculator 5000000

def calcDifficultyByzantium : UInt64 → Header → Int := makeDifficultyCalculator 3000000

def calcDifficulty (config : ChainConfig) (time : UInt64) (parent : Header) : Int :=
  let next := some ((parent.number : Int) + 1)
  if config.isCatalyst next then 1
  else if config.isLondon next then calcDifficultyEip3554 time parent
  else if config.isMuirGlacier next then calcDifficultyEip2384 time parent
  else if config.isConstantinople next then calcDifficultyConstantinople time parent
  else if config.isByzantium next then calcDifficultyByzantium time parent
  else if config.isHomestead next then calcDifficultyHomestead time parent
  else calcDifficultyFrontier time parent

/-- `uint256.Int`. -/
abbrev U256 := BitVec 256

def frontierDurationLimit : UInt64 := 13

def expDiffPeriodUint : UInt64 := 100000

/-- The divisor 2048, as a shift. -/
def difficultyBoundDivisor : Nat := 11

/-- `LtUint64` and `SetUint64` with the minimum. -/
def atLeastMinimumU256 (x : U256) : U256 :=
  if x < BitVec.ofNat 256 minimumDifficulty then BitVec.ofNat 256 minimumDifficulty else x

/-- `SetOne`, `Lsh` and `Add`. -/
def addPowerU256 (x : U256) (shift : UInt64) : U256 := x + (1#256 <<< shift.toNat)

def calcDifficultyFrontierU256 (time : UInt64) (parent : Header) : Nat :=
  let pDiff := BitVec.ofNat 256 parent.difficulty
  let adjust := pDiff >>> difficultyBoundDivisor
  let pDiff :=
    if time - parent.time < frontierDurationLimit then pDiff + adjust else pDiff - adjust
  let pDiff := atLeastMinimumU256 pDiff
  let periodCount := (UInt64.ofNat parent.number + 1) / expDiffPeriodUint
  let pDiff := if periodCount > 1 then addPowerU256 pDiff (periodCount - 2) else pDiff
  pDiff.toNat

/-- The adjustment of Homestead, and whether it is negative. -/
def homesteadFactor (elapsed : UInt64) : UInt64 × Bool :=
  let x := elapsed / 10
  if x = 0 then (1, false) else if x ≥ 100 then (99, true) else (x - 1, true)

/-- The factor times an adjustment, added or taken off. -/
def adjustU256 (pDiff adjust : U256) (factor : UInt64 × Bool) : U256 :=
  let adjust := adjust * BitVec.ofNat 256 factor.1.toNat
  if factor.2 then pDiff - adjust else pDiff + adjust

def calcDifficultyHomesteadU256 (time : UInt64) (parent : Header) : Nat :=
  let pDiff := BitVec.ofNat 256 parent.difficulty
  let adjust := pDiff >>> difficultyBoundDivisor
  let pDiff := adjustU256 pDiff adjust (homesteadFactor (time - parent.time))
  let pDiff := atLeastMinimumU256 pDiff
  let periodCount := (1 + UInt64.ofNat parent.number) / expDiffPeriodUint
  let pDiff := if periodCount > 1 then addPowerU256 pDiff (periodCount - 2) else pDiff
  pDiff.toNat

/-- The adjustment from Byzantium on, which uncles of the parent soften. -/
def byzantiumFactor (elapsed : UInt64) (uncleHash : Hash) : UInt64 × Bool :=
  let x := elapsed / 9
  let c : UInt64 := if uncleHash ≠ emptyUncleHash then 2 else 1
  let xNeg := x ≥ c
  let x := if xNeg then x - c else c - x
  (if x > 99 then 99 else x, xNeg)

/-- The delay is cut to 64 bits. -/
def makeDifficultyCalculatorU256 (bombDelay : Int) (time : UInt64) (parent : Header) : Nat :=
  let bombDelayFromParent := UInt64.ofNat bombDelay.natAbs - 1
  let pDiff := BitVec.ofNat 256 parent.difficulty
  let adjust := pDiff >>> difficultyBoundDivisor
  let y := adjustU256 pDiff adjust (byzantiumFactor (time - parent.time) parent.uncleHash)
  let y := atLeastMinimumU256 y
  let pNum := UInt64.ofNat parent.number
  let y :=
    if pNum ≥ bombDelayFromParent then
      let fakeBlockNumber := pNum - bombDelayFromParent
      if fakeBlockNumber ≥ 2 * expDiffPeriodUint then
        addPowerU256 y (fakeBlockNumber / expDiffPeriodUint - 2)
      else
        y
    else
      y
  y.toNat

end GoBinacoin.Consensus
