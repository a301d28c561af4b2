import GoBinacoin.Params.Config
import GoBinacoin.Types.Header

/-! The header checks that consensus engines share: the gas limit, the base fee, and the fields that
hard forks set.
-/

namespace GoBinacoin.Consensus

open Params Types

def gasLimitBoundDivisor : UInt64 := 1024

def minGasLimit : UInt64 := 5000

def elasticityMultiplier : UInt64 := 2

def baseFeeChangeDenominator : Nat := 8

def initialBaseFee : Nat := 1000000000

def daoForkExtraRange : Int := 10

/-- `DAOForkBlockExtra`, the text "dao-hard-fork". -/
def daoForkBlockExtra : Bytes :=
  [0x64, 0x61, 0x6f, 0x2d, 0x68, 0x61, 0x72, 0x64, 0x2d, 0x66, 0x6f, 0x72, 0x6b]

inductive HeaderError where
  | extraDataTooLong (size max : Nat)
  | futureBlock
  | olderBlockTime
  | invalidDifficulty (have_ : Nat) (want : Int)
  | gasLimitAboveCap (have_ max : UInt64)
  | invalidGasUsed (have_ gasLimit : UInt64)
  | baseFeeBeforeFork (have_ : Nat)
  | invalidGasLimit (have_ want range : UInt64)
  | gasLimitBelowMinimum
  | missingBaseFee
  /-- The text says "have" of the fee that the parent asks for, and "want" of the header's. -/
  | invalidBaseFee (have_ want : Nat) (parentBaseFee : Option Nat) (parentGasUsed : UInt64)
  | invalidNumber
  | badProDAOExtra
  | badNoDAOExtra
  | gasRepriceFork (have_ want : Hash)
  | nonPositiveDifficulty
  | invalidMixDigest
  | invalidPoW
  | tooManyUncles
  | duplicateUncle
  | uncleIsAncestor
  | danglingUncle
  deriving DecidableEq

/-- Why a check stopped: an error, or a panic. -/
inductive Stop where
  | err (e : HeaderError)
  | nilPointer
  | divisionByZero
  deriving DecidableEq

def verifyGaslimit (parentGasLimit headerGasLimit : UInt64) : Except HeaderError Unit :=
  let diff := parentGasLimit.toInt64 - headerGasLimit.toInt64
  let diff := if diff < 0 then diff * -1 else diff
  let limit := parentGasLimit / gasLimitBoundDivisor
  if diff.toUInt64 ≥ limit then
    .error (.invalidGasLimit headerGasLimit parentGasLimit (limit - 1))
  else if headerGasLimit < minGasLimit then
    .error .gasLimitBelowMinimum
  else
    .ok ()

/-- The division of `CalcBaseFee` by the gas target. -/
def perTarget (x : Nat) (parentGasTarget : UInt64) : Except Stop Nat :=
  if parentGasTarget = 0 then .error .divisionByZero else .ok (x / parentGasTarget.toNat)

def calcBaseFee (config : ChainConfig) (parent : Header) : Except Stop Nat :=
  if !config.isLondon (some parent.number) then
    .ok initialBaseFee
  else
    let parentGasTarget := parent.gasLimit / elasticityMultiplier
    match parent.baseFee with
    | none => .error .nilPointer
    | some baseFee =>
        if parent.gasUsed = parentGasTarget then
          .ok baseFee
        else if parent.gasUsed > parentGasTarget then do
          let y ← perTarget (baseFee * (parent.gasUsed - parentGasTarget).toNat) parentGasTarget
          let baseFeeDelta := max (y / baseFeeChangeDenominator) 1
          return baseFee + baseFeeDelta
        else do
          let y ← perTarget (baseFee * (parentGasTarget - parent.gasUsed).toNat) parentGasTarget
          let baseFeeDelta := y / baseFeeChangeDenominator
          return (max ((baseFee : Int) - baseFeeDelta) 0).toNat

def verifyEip1559Header (config : ChainConfig) (parent header : Header) : Except Stop Unit := do
  let parentGasLimit :=
    if !config.isLondon (some parent.number) then
      parent.gasLimit * elasticityMultiplier
    else
      parent.gasLimit
  (verifyGaslimit parentGasLimit header.gasLimit).mapError .err
  match header.baseFee with
  | none => .error (.err .missingBaseFee)
  | some baseFee =>
      let expectedBaseFee ← calcBaseFee config parent
      if baseFee ≠ expectedBaseFee then
        .error (.err (.invalidBaseFee expectedBaseFee baseFee parent.baseFee parent.gasUsed))

def verifyDAOHeaderExtraData (config : ChainConfig) (header : Header) : Except HeaderError Unit :=
  match config.daoForkBlock with
  | none => .ok ()
  | some daoForkBlock =>
      let limit := daoForkBlock + daoForkExtraRange
      if (header.number : Int) < daoForkBlock ∨ (header.number : Int) ≥ limit then
        .ok ()
      else if config.daoForkSupport then
        if header.extra ≠ daoForkBlockExtra then .error .badProDAOExtra else .ok ()
      else
        if header.extra = daoForkBlockExtra then .error .badNoDAOExtra else .ok ()

/-- The hash of a header is the caller's. -/
def verifyForkHashes (config : ChainConfig) (hash : Hash) (header : Header) (uncle : Bool)
    : Except HeaderError Unit :=
  if uncle then
    .ok ()
  else if config.eip150Block = some (header.number : Int) ∧ config.eip150Hash ≠ 0
      ∧ config.eip150Hash ≠ hash then
    .error (.gasRepriceFork hash config.eip150Hash)
  else
    .ok ()

end GoBinacoin.Consensus
