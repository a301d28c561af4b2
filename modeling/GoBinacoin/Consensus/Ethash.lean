import GoBinacoin.Consensus.Difficulty
import GoBinacoin.Consensus.Misc
import GoBinacoin.State.StateDB

/-! The proof-of-work engine: the checks of a header and of the uncles of a block, and the rewards.
-/

namespace GoBinacoin.Consensus

open Params State Types

/-- `consensus.ChainReader`: headers and blocks by hash and number. -/
structure ChainReader where
  config : ChainConfig
  getHeader : Hash → UInt64 → Option Header
  getBlock : Hash → UInt64 → Option Block

inductive Mode where
  | normal
  | shared
  | test
  | fake
  | fullFake
  deriving DecidableEq

/-- What an engine needs to check a seal. The digest and the result of hashimoto for a header are
those of the caches, which are outside this model.
-/
structure Sealing where
  powMode : Mode
  fakeFail : UInt64 := 0
  hashimoto : Header → Hash × Hash

/-- The engine. A shared one, to which it may delegate, has no other behind it. -/
structure Ethash extends Sealing where
  shared : Option Sealing := none

/-- The proof of work of a header. -/
def Sealing.verifyWork (e : Sealing) (header : Header) : Except HeaderError Unit :=
  if header.difficulty = 0 then
    .error .nonPositiveDifficulty
  else
    let (digest, result) := e.hashimoto header
    if header.mixDigest ≠ digest then
      .error .invalidMixDigest
    else
      let target := 2 ^ 256 / header.difficulty
      if result.toNat > target then .error .invalidPoW else .ok ()

/-- The seal of a header for an engine that may have another one to ask. -/
def Sealing.verifySealOr (e : Sealing) (header : Header) (delegate : Except HeaderError Unit)
    : Except HeaderError Unit :=
  if e.powMode = .fake ∨ e.powMode = .fullFake then
    if e.fakeFail = UInt64.ofNat header.number then .error .invalidPoW else .ok ()
  else
    delegate

def Ethash.verifySeal (e : Ethash) (header : Header) : Except HeaderError Unit :=
  e.verifySealOr header <|
    match e.shared with
    | some shared => shared.verifySealOr header (shared.verifyWork header)
    | none => e.verifyWork header

def allowedFutureBlockTimeSeconds : Int64 := 15

def maximumExtraDataSize : Nat := 32

/-- The largest gas limit, 2^63 - 1. -/
def gasLimitCap : UInt64 := 0x7fffffffffffffff

variable (h : HeaderHashes)

/-- The gas limit and the base fee, before London and from it on. -/
def verifyFees (config : ChainConfig) (header parent : Header) : Except Stop Unit :=
  if !config.isLondon (some header.number) then
    match header.baseFee with
    | some baseFee => .error (.err (.baseFeeBeforeFork baseFee))
    | none => (verifyGaslimit parent.gasLimit header.gasLimit).mapError .err
  else
    verifyEip1559Header config parent header

def Ethash.verifyHeader (e : Ethash) (chain : ChainReader) (header parent : Header)
    (uncle checkSeal : Bool) (unixNow : Int64)
    : Except Stop Unit := do
  if header.extra.length > maximumExtraDataSize then
    .error (.err (.extraDataTooLong header.extra.length maximumExtraDataSize))
  if !uncle ∧ header.time > (unixNow + allowedFutureBlockTimeSeconds).toUInt64 then
    .error (.err .futureBlock)
  if header.time ≤ parent.time then
    .error (.err .olderBlockTime)
  let expected := calcDifficulty chain.config header.time parent
  if expected ≠ header.difficulty then
    .error (.err (.invalidDifficulty header.difficulty expected))
  if header.gasLimit > gasLimitCap then
    .error (.err (.gasLimitAboveCap header.gasLimit gasLimitCap))
  if header.gasUsed > header.gasLimit then
    .error (.err (.invalidGasUsed header.gasUsed header.gasLimit))
  verifyFees chain.config header parent
  if (header.number : Int) - parent.number ≠ 1 then
    .error (.err .invalidNumber)
  if checkSeal then
    (e.verifySeal header).mapError .err
  (verifyDAOHeaderExtraData chain.config header).mapError .err
  (verifyForkHashes chain.config (h.hash header) header uncle).mapError .err

theorem Ethash.verifyHeader_number {e : Ethash} {chain : ChainReader} {header parent : Header}
    {uncle checkSeal : Bool} {unixNow : Int64}
    (accepted : e.verifyHeader h chain header parent uncle checkSeal unixNow = .ok ())
    : header.number = parent.number + 1 := by
  by_contra wrong
  have stops : (header.number : Int) - parent.number ≠ 1 := by omega
  simp only [verifyHeader, if_pos stops, bind, Except.bind] at accepted
  split_ifs at accepted
  revert accepted
  cases verifyFees chain.config header parent <;> exact nofun

/-- The past uncles and the ancestors that `VerifyUncles` gathers. -/
structure Family where
  uncles : Finset Hash := ∅
  ancestors : GoMap Hash Header := GoMap.empty

def Family.addAncestor (f : Family) (hash : Hash) (header : Header) : Family :=
  { f with ancestors := f.ancestors.set hash header }

def Family.addUncles (f : Family) (uncles : List Header) : Family :=
  { f with uncles := f.uncles ∪ (uncles.map h.hash).toFinset }

/-- The loop over the ancestors, which ends where one is missing. -/
def gather (chain : ChainReader) : Nat → Hash → UInt64 → Family → Family
  | 0, _, _, f => f
  | n + 1, parent, number, f =>
      match chain.getHeader parent number with
      | none => f
      | some ancestorHeader =>
          let f := f.addAncestor parent ancestorHeader
          if ancestorHeader.uncleHash ≠ emptyUncleHash then
            match chain.getBlock parent number with
            | none => f
            | some ancestor =>
                gather chain n ancestorHeader.parentHash (number - 1)
                  (f.addUncles h ancestor.uncles)
          else
            gather chain n ancestorHeader.parentHash (number - 1) f

/-- The loop over the uncles of a block. -/
def Ethash.verifyEach (e : Ethash) (chain : ChainReader) (block : Block) (unixNow : Int64)
    : Family → List Header → Except Stop Unit
  | _, [] => .ok ()
  | f, uncle :: rest =>
      if h.hash uncle ∈ f.uncles then
        .error (.err .duplicateUncle)
      else if (f.ancestors (h.hash uncle)).isSome then
        .error (.err .uncleIsAncestor)
      else
        match f.ancestors uncle.parentHash with
        | none => .error (.err .danglingUncle)
        | some parent =>
            if uncle.parentHash = block.header.parentHash then
              .error (.err .danglingUncle)
            else do
              e.verifyHeader h chain uncle parent true true unixNow
              e.verifyEach chain block unixNow (f.addUncles h [uncle]) rest

def Ethash.verifyUncles (e : Ethash) (chain : ChainReader) (block : Block) (unixNow : Int64)
    : Except Stop Unit :=
  if e.powMode = .fullFake then
    .ok ()
  else if block.uncles.length > maxUncles then
    .error (.err .tooManyUncles)
  else if block.uncles.length = 0 then
    .ok ()
  else
    let gathered := gather h chain 7 block.header.parentHash
      (UInt64.ofNat block.header.number - 1) {}
    let f := (gathered.addAncestor (h.blockHash block) block.header).addUncles h [block.header]
    e.verifyEach h chain block unixNow f block.uncles

def frontierBlockReward : Int := 5000000000000000000

def byzantiumBlockReward : Int := 3000000000000000000

def constantinopleBlockReward : Int := 2000000000000000000

def blockReward (config : ChainConfig) (number : Nat) : Int :=
  if config.isConstantinople (some number) then
    constantinopleBlockReward
  else if config.isByzantium (some number) then
    byzantiumBlockReward
  else
    frontierBlockReward

/-- The share of the block reward that an uncle earns, in eighths. -/
def uncleFactor (header uncle : Header) : Int := (uncle.number : Int) + 8 - header.number

variable {B : Backend}

/-- The loop over the uncles: each is paid, and the miner's reward grows. -/
def rewardUncles (blockReward : Int) (header : Header)
    : List Header → StateDB B → Int → StateDB B × Int
  | [], s, reward => (s, reward)
  | uncle :: rest, s, reward =>
      rewardUncles blockReward header rest
        (s.addBalance uncle.coinbase (uncleFactor header uncle * blockReward / 8))
        (reward + blockReward / 32)

def accumulateRewards (config : ChainConfig) (s : StateDB B) (header : Header)
    (uncles : List Header)
    : StateDB B :=
  if config.isCatalyst (some header.number) then
    s
  else
    let blockReward := blockReward config header.number
    let (s, reward) := rewardUncles blockReward header uncles s blockReward
    s.addBalance header.coinbase reward

end GoBinacoin.Consensus
