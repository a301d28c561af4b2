import GoBinacoin.Common.Types

/-! Block headers, and blocks with their uncles. -/

namespace GoBinacoin.Types

/-- `EmptyUncleHash`, the hash of the list without uncles. -/
def emptyUncleHash : Hash :=
  0x1dcc4de8dec75d7aab85b567b6ccd41ad312451b948a7413f0a142fd40d49347#256

/-- `types.Header`. Its big integers come from RLP, which has no negative numbers. -/
structure Header where
  parentHash : Hash := 0
  uncleHash : Hash := 0
  coinbase : Address := 0
  root : Hash := 0
  txHash : Hash := 0
  receiptHash : Hash := 0
  bloom : BitVec 2048 := 0
  difficulty : Nat := 0
  number : Nat := 0
  gasLimit : UInt64 := 0
  gasUsed : UInt64 := 0
  time : UInt64 := 0
  extra : Bytes := []
  mixDigest : Hash := 0
  nonce : BitVec 64 := 0
  baseFee : Option Nat := none
  deriving DecidableEq

/-- `types.Block`, without its transactions. -/
structure Block where
  header : Header
  uncles : List Header := []
  deriving DecidableEq

def maxUncles : Nat := 2

/-- The hashes of headers and of lists of uncles. No other list has the hash of the empty one, and
no block has an uncle that names the block as its parent: its hash would have to be known before it.
-/
structure HeaderHashes where
  hash : Header → Hash
  rlpHash : List Header → Hash
  rlpHash_ne : ∀ uncles, uncles ≠ [] → rlpHash uncles ≠ emptyUncleHash
  noCycle : ∀ header uncles, uncles.length ≤ maxUncles → header.uncleHash = rlpHash uncles →
    ∀ uncle ∈ uncles, uncle.parentHash ≠ hash header

def HeaderHashes.calcUncleHash (h : HeaderHashes) (uncles : List Header) : Hash :=
  if uncles = [] then emptyUncleHash else h.rlpHash uncles

def HeaderHashes.blockHash (h : HeaderHashes) (block : Block) : Hash := h.hash block.header

end GoBinacoin.Types
