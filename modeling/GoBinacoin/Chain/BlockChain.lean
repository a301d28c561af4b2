import GoBinacoin.Chain.Index

/-! Blocks are written to the chain: a block that wins by total difficulty becomes the new head, and
the indexes of the abandoned branch are replaced.
-/

namespace GoBinacoin.Chain

open Types (Header)

/-- `types.Block` as the indexes see it: the header and the hashes of the transactions. -/
structure Block where
  header : Header
  transactions : List Hash
  deriving DecidableEq

def Block.number (b : Block) : Nat := b.header.number

def Block.parentHash (b : Block) : Hash := b.header.parentHash

/-- The database with the chain and its indexes, and the heads in memory. Blocks and total
difficulties are stored under the hash and the number of the block.
-/
structure BlockChain where
  blocks : GoMap (Hash × Nat) Block
  td : GoMap (Hash × Nat) Nat
  canonical : Canonical
  lookup : GoMap Hash Nat
  headBlockHash : Hash
  headHeaderHash : Hash
  headFastBlockHash : Hash
  currentBlock : Block
  currentHeader : Header
  currentFastBlock : Block

inductive InsertError where
  | unknownAncestor
  | invalidOldChain
  | invalidNewChain
  | outOfFuel
  deriving DecidableEq

def txDifference (a b : List Hash) : List Hash := a.filter fun tx => tx ∉ b

namespace BlockChain

variable (hash : Header → Hash)

/-- `Block.Hash`. -/
def blockHash (b : Block) : Hash := hash b.header

def getBlock (bc : BlockChain) (h : Hash) (number : Nat) : Option Block := bc.blocks (h, number)

/-- The parent, as every loop over ancestors gets it. -/
def getParent (bc : BlockChain) (b : Block) : Option Block :=
  bc.getBlock b.parentHash (b.number - 1)

def writeTxLookupEntriesByBlock (lookup : GoMap Hash Nat) (b : Block) : GoMap Hash Nat :=
  b.transactions.foldl (fun lookup tx => lookup.set tx b.number) lookup

def writeHeadBlock (bc : BlockChain) (b : Block) : BlockChain :=
  let h := blockHash hash b
  let updateHeads := readCanonicalHash bc.canonical b.number ≠ h
  { bc with
    canonical := bc.canonical.insert b.number h
    lookup := writeTxLookupEntriesByBlock bc.lookup b
    headBlockHash := h
    headHeaderHash := if updateHeads then h else bc.headHeaderHash
    headFastBlockHash := if updateHeads then h else bc.headFastBlockHash
    currentHeader := if updateHeads then b.header else bc.currentHeader
    currentFastBlock := if updateHeads then b else bc.currentFastBlock
    currentBlock := b }

/-- The loop that reduces the longer chain to a number, with the blocks on the way. -/
def reduce (bc : BlockChain) (number : Nat)
    : Nat → Block → List Block → Option (List Block × Block)
  | 0, _, _ => none
  | fuel + 1, b, chain =>
      if b.number = number then some (chain, b)
      else
        match bc.getParent b with
        | none => none
        | some parent => bc.reduce number fuel parent (chain ++ [b])

/-- The loop that steps back with both chains until the common ancestor is found. -/
def findCommon (bc : BlockChain)
    : Nat → Block → Block → List Block → List Block → Except InsertError (List Block × List Block)
  | 0, _, _, _, _ => .error .outOfFuel
  | fuel + 1, oldBlock, newBlock, oldChain, newChain =>
      if blockHash hash oldBlock = blockHash hash newBlock then .ok (oldChain, newChain)
      else
        match bc.getParent oldBlock with
        | none => .error .invalidOldChain
        | some oldParent =>
            match bc.getParent newBlock with
            | none => .error .invalidNewChain
            | some newParent =>
                bc.findCommon fuel oldParent newParent (oldChain ++ [oldBlock])
                  (newChain ++ [newBlock])

/-- The first part of `reorg`: the blocks that leave the canonical chain and those that join it,
both from the top down.
-/
def branches (bc : BlockChain) (oldBlock newBlock : Block)
    : Except InsertError (List Block × List Block) :=
  if oldBlock.number > newBlock.number then
    match bc.reduce newBlock.number (oldBlock.number + 1) oldBlock [] with
    | none => .error .invalidOldChain
    | some (oldChain, oldBlock) =>
        bc.findCommon hash (oldBlock.number + 1) oldBlock newBlock oldChain []
  else
    match bc.reduce oldBlock.number (newBlock.number + 1) newBlock [] with
    | none => .error .invalidNewChain
    | some (newChain, newBlock) =>
        bc.findCommon hash (oldBlock.number + 1) oldBlock newBlock [] newChain

/-- The second part of `reorg`: the new chain is inserted except for its head, and the indexes of
the old one are deleted.
-/
def rewrite (bc : BlockChain) (oldChain newChain : List Block) : BlockChain :=
  let inserted := newChain.tail.reverse
  let bc := inserted.foldl (writeHeadBlock hash) bc
  let deletedTxs := oldChain.flatMap Block.transactions
  let addedTxs := inserted.flatMap Block.transactions
  { bc with
    lookup := (txDifference deletedTxs addedTxs).foldl (fun lookup tx => lookup.delete tx) bc.lookup
    -- The current block is the last one inserted, or still the old head.
    canonical := deleteAbove bc.canonical (bc.currentBlock.number + 1) }

def reorg (bc : BlockChain) (oldBlock newBlock : Block) : Except InsertError BlockChain :=
  match bc.branches hash oldBlock newBlock with
  | .error err => .error err
  | .ok (oldChain, newChain) => .ok (bc.rewrite hash oldChain newChain)

/-- The switch to a new head: a reorganisation unless the block extends the current one. -/
def setHead (bc : BlockChain) (b : Block) : Except InsertError BlockChain :=
  if b.parentHash ≠ blockHash hash bc.currentBlock then
    match bc.reorg hash bc.currentBlock b with
    | .error err => .error err
    | .ok bc => .ok (bc.writeHeadBlock hash b)
  else .ok (bc.writeHeadBlock hash b)

def writeKnownBlock (bc : BlockChain) (b : Block) : Except InsertError BlockChain :=
  bc.setHead hash b

/-- The first part of `writeBlockWithState`: the block itself is written. -/
def writeBlock (bc : BlockChain) (b : Block) (externTd : Nat) : BlockChain :=
  { bc with
    td := bc.td.set (blockHash hash b, b.number) externTd
    blocks := bc.blocks.set (blockHash hash b, b.number) b }

/-- Whether a block wins against the current one. `coin` is the random number being below 0.5. -/
def wins (shouldPreserve : Option (Block → Bool)) (currentBlock b : Block) (localTd externTd : Nat)
    (coin : Bool)
    : Bool :=
  if externTd > localTd then true
  else if externTd = localTd then
    if b.number < currentBlock.number then true
    else if b.number = currentBlock.number then
      !(shouldPreserve.elim false (· currentBlock))
        && (shouldPreserve.elim false (· b) || coin)
    else false
  else false

/-- `writeBlockWithState`, with the state written successfully. A current block without a total
difficulty would be a nil pointer; it always has one.
-/
def writeBlockWithState (shouldPreserve : Option (Block → Bool)) (bc : BlockChain) (b : Block)
    (coin : Bool)
    : Except InsertError BlockChain :=
  match bc.td (b.parentHash, b.number - 1) with
  | none => .error .unknownAncestor
  | some ptd =>
      let localTd := (bc.td (blockHash hash bc.currentBlock, bc.currentBlock.number)).getD 0
      let externTd := b.header.difficulty + ptd
      let bc := bc.writeBlock hash b externTd
      if wins shouldPreserve bc.currentBlock b localTd externTd coin then bc.setHead hash b
      else .ok bc

end BlockChain

end GoBinacoin.Chain
