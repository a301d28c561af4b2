import GoBinacoin.Chain.BlockChain
import GoBinacoin.Lib.KeyedTree

/-! Trees of blocks, what a chain database holds of one, and the branches a reorganisation finds in
it.
-/

namespace GoBinacoin.Chain

open Types (Header)
open Ancestry

/-- The blocks that can occur, by their hashes: each but the genesis has a parent one number below
it and a positive difficulty, and no transaction is on a branch twice.
-/
structure BlockTree where
  hash : Header → Hash
  find : Hash → Option Block
  genesis : Block
  find_hash : ∀ {h b}, find h = some b → hash b.header = h
  find_genesis : find (hash genesis.header) = some genesis
  genesis_number : genesis.number = 0
  genesis_parent : find genesis.parentHash = none
  genesis_transactions : genesis.transactions = []
  zero : find 0 = none
  bottom : ∀ {h b}, find h = some b → b.number = 0 → b = genesis
  parent : ∀ {h b}, find h = some b → b.number ≠ 0
    → ∃ p, find b.parentHash = some p ∧ b.number = p.number + 1
  difficulty : ∀ {h b}, find h = some b → b.number ≠ 0 → 0 < b.header.difficulty
  once : ∀ {h b}, find h = some b → ∀ a a' tx,
    Ancestor (fun b => (find b.parentHash).filter fun p => b.number = p.number + 1) b a
    → Ancestor (fun b => (find b.parentHash).filter fun p => b.number = p.number + 1) b a'
    → tx ∈ a.transactions → tx ∈ a'.transactions → a = a'

variable {a b p : Block}

namespace BlockTree

variable (t : BlockTree)

def parentOf (b : Block) : Option Block :=
  (t.find b.parentHash).filter fun p => b.number = p.number + 1

def key (b : Block) : Hash := t.hash b.header

def Member (b : Block) : Prop := t.find (t.key b) = some b

/-- The tree of the blocks by their hashes. -/
def keyed : KeyedTree Block Hash where
  key := t.key
  parentKey := Block.parentHash
  height := Block.number
  find := t.find
  root := t.genesis
  find_key := t.find_hash
  find_root := t.find_genesis
  root_height := t.genesis_number
  root_parent := t.genesis_parent
  bottom := t.bottom
  parent := t.parent

variable {t}

theorem graded : Graded t.parentOf Block.number := KeyedTree.graded (t := t.keyed)

theorem Member.of_parentOf (link : t.parentOf b = some p) : t.Member p :=
  KeyedTree.Member.of_parentOf (t := t.keyed) link

theorem key_parent (link : t.parentOf b = some p) : t.key p = b.parentHash :=
  KeyedTree.key_parent (t := t.keyed) link

/-- Every block but the genesis block has a parent. -/
theorem Member.exists_parent (member : t.Member b) (above : b.number ≠ 0)
    : ∃ p, t.parentOf b = some p :=
  KeyedTree.Member.exists_parent (t := t.keyed) member above

theorem Member.key_inj (left : t.Member a) (right : t.Member b) (same : t.key a = t.key b)
    : a = b :=
  KeyedTree.Member.key_inj (t := t.keyed) left right same

variable (member : t.Member b)
include member

theorem Member.key_ne_zero : t.key b ≠ 0 := by
  intro same
  rw [Member, same, t.zero] at member
  cases member

theorem Member.eq_genesis (bottom : b.number = 0) : b = t.genesis := t.bottom member bottom

theorem Member.ancestor (above : Ancestor t.parentOf b a) : t.Member a :=
  KeyedTree.Member.ancestor (t := t.keyed) member above

/-- A transaction is in one block of a branch only. -/
theorem Member.once {a' : Block} {tx : Hash}
    (above : Ancestor t.parentOf b a) (above' : Ancestor t.parentOf b a')
    (mem : tx ∈ a.transactions) (mem' : tx ∈ a'.transactions)
    : a = a' :=
  t.once member a a' tx above above' mem mem'

theorem Member.exists_ancestor {n : Nat} (le : n ≤ b.number)
    : ∃ a, Ancestor t.parentOf b a ∧ a.number = n :=
  KeyedTree.Member.exists_ancestor (t := t.keyed) member le

omit member

/-- A block that is stepped over is not on the branch of the other block of its number. -/
theorem apart_cons {list : List Block} {q common : Block} (apart : a ≠ b)
    (level : a.number = b.number) (link : t.parentOf a = some p) (link' : t.parentOf b = some q)
    (path : Path t.parentOf p list common) (below : ∀ c ∈ list, ¬Ancestor t.parentOf q c)
    : ∀ c ∈ a :: list, ¬Ancestor t.parentOf b c := by
  intro c mem above
  rcases List.mem_cons.mp mem with rfl | later
  · exact apart (above.eq_of_height graded level).symm
  · rcases ancestor_iff.mp above with rfl | ⟨r, found, further⟩
    · have lower := ((path.mem_iff graded).mp later).1.height_le graded
      have next := graded link
      omega
    · cases link'.symm.trans found
      exact below c later further

end BlockTree

/-- A block is in the database, under its hash and number. -/
def Stored (t : BlockTree) (bc : BlockChain) (b : Block) : Prop :=
  bc.blocks (t.key b, b.number) = some b

/-- The stored blocks are a part of the tree that is closed under parents, with their total
difficulties.
-/
structure Holds (t : BlockTree) (bc : BlockChain) : Prop where
  blocks : ∀ {key b}, bc.blocks key = some b → key = (t.key b, b.number) ∧ t.Member b
  difficulty : ∀ {b}, Stored t bc b → ∃ n, bc.td (t.key b, b.number) = some n
  known : ∀ {key n}, bc.td key = some n → ∃ b, bc.blocks key = some b
  parent : ∀ {b p}, Stored t bc b → t.parentOf b = some p → Stored t bc p
  total : ∀ {b p n m}, Stored t bc b → t.parentOf b = some p
    → bc.td (t.key b, b.number) = some n → bc.td (t.key p, p.number) = some m
    → n = b.header.difficulty + m

variable {t : BlockTree} {bc : BlockChain}

namespace Holds

theorem member (holds : Holds t bc) (stored : Stored t bc b) : t.Member b := (holds.blocks stored).2

theorem totals (holds : Holds t bc)
    : Totals t.keyed (fun b => b.header.difficulty) bc.blocks bc.td :=
  ⟨holds.blocks, holds.difficulty, holds.known, holds.parent, holds.total⟩

theorem of_totals (totals : Totals t.keyed (fun b => b.header.difficulty) bc.blocks bc.td)
    : Holds t bc :=
  ⟨totals.placed, totals.weighed, totals.known, totals.parent, totals.sum⟩

variable (holds : Holds t bc) (stored : Stored t bc b)
include holds stored

/-- Ancestors of stored blocks are stored. -/
theorem ancestor (above : Ancestor t.parentOf b a) : Stored t bc a :=
  holds.totals.ancestor stored above

/-- The parent of a stored block is found. -/
theorem getParent (link : t.parentOf b = some p) : bc.getParent b = some p := by
  have next := BlockTree.graded link
  have number : b.number - 1 = p.number := by omega
  rw [BlockChain.getParent, BlockChain.getBlock, ← BlockTree.key_parent link, number]
  exact holds.parent stored link

/-- Total difficulties grow along every branch. -/
theorem total_le
    (above : Ancestor t.parentOf b a) {n m : Nat} (total : bc.td (t.key b, b.number) = some n)
    (total' : bc.td (t.key a, a.number) = some m)
    : m ≤ n ∧ (a ≠ b → m < n) :=
  holds.totals.total_le t.difficulty stored above total total'

end Holds

section

variable (holds : Holds t bc)

include holds

/-- Going back from a block collects its branch down to the given number. -/
theorem reduce_ok (number fuel : Nat) {b : Block} (stored : Stored t bc b) (le : number ≤ b.number)
    (enough : b.number - number < fuel) (chain : List Block)
    : ∃ list a, bc.reduce number fuel b chain = some (chain ++ list, a)
      ∧ Path t.parentOf b list a ∧ a.number = number ∧ Stored t bc a := by
  induction fuel generalizing b chain with
  | zero => omega
  | succ fuel ih =>
    unfold BlockChain.reduce
    split
    · rename_i reached
      exact ⟨[], b, by rw [List.append_nil], .nil b, reached, stored⟩
    · rename_i further
      obtain ⟨p, link⟩ := (holds.member stored).exists_parent (by omega)
      have next := BlockTree.graded link
      rw [holds.getParent stored link]
      obtain ⟨list, a, done, path, reached, storedEnd⟩ :=
        ih (holds.parent stored link) (by omega) (by omega) (chain ++ [b])
      refine ⟨b :: list, a, ?_, .cons link path, reached, storedEnd⟩
      dsimp only
      rw [done, List.append_assoc, List.singleton_append]

variable {oldBlock newBlock : Block}

/-- Two blocks of one number have a common ancestor, and what is stepped over is on one of the two
branches only.
-/
theorem findCommon_ok {fuel : Nat} (storedOld : Stored t bc oldBlock)
    (storedNew : Stored t bc newBlock) (level : oldBlock.number = newBlock.number)
    (enough : oldBlock.number < fuel) (oldChain newChain : List Block)
    : ∃ oldList newList common,
        bc.findCommon t.hash fuel oldBlock newBlock oldChain newChain
          = .ok (oldChain ++ oldList, newChain ++ newList)
        ∧ Path t.parentOf oldBlock oldList common ∧ Path t.parentOf newBlock newList common
        ∧ (∀ b ∈ oldList, ¬Ancestor t.parentOf newBlock b)
        ∧ ∀ b ∈ newList, ¬Ancestor t.parentOf oldBlock b := by
  induction fuel generalizing oldBlock newBlock oldChain newChain with
  | zero => omega
  | succ fuel ih =>
    have memberOld := holds.member storedOld
    have memberNew := holds.member storedNew
    unfold BlockChain.findCommon
    split
    · rename_i same
      cases memberOld.key_inj memberNew same
      refine ⟨[], [], oldBlock, ?_, .nil _, .nil _, fun _ mem => (nomatch mem),
        fun _ mem => (nomatch mem)⟩
      rw [List.append_nil, List.append_nil]
    · rename_i different
      have apart : oldBlock ≠ newBlock := fun same => different (by rw [same])
      have positive : oldBlock.number ≠ 0 := by
        intro zero
        exact apart ((memberOld.eq_genesis zero).trans (memberNew.eq_genesis (level ▸ zero)).symm)
      obtain ⟨oldParent, oldLink⟩ := memberOld.exists_parent positive
      obtain ⟨newParent, newLink⟩ := memberNew.exists_parent (level ▸ positive)
      have oldNext := BlockTree.graded oldLink
      have newNext := BlockTree.graded newLink
      rw [holds.getParent storedOld oldLink, holds.getParent storedNew newLink]
      obtain ⟨oldList, newList, common, done, oldPath, newPath, oldApart, newApart⟩ :=
        ih (holds.parent storedOld oldLink) (holds.parent storedNew newLink) (by omega) (by omega)
          (oldChain ++ [oldBlock]) (newChain ++ [newBlock])
      refine ⟨oldBlock :: oldList, newBlock :: newList, common, ?_, .cons oldLink oldPath,
        .cons newLink newPath, ?_, ?_⟩
      · dsimp only
        rw [done, List.append_assoc, List.append_assoc, List.singleton_append,
          List.singleton_append]
      · exact BlockTree.apart_cons apart level oldLink newLink oldPath oldApart
      · exact BlockTree.apart_cons apart.symm level.symm newLink oldLink newPath newApart

/-- What leaves and what joins the canonical chain. -/
structure Forked (t : BlockTree) (oldBlock newBlock common : Block)
    (oldChain newChain : List Block)
    : Prop where
  oldPath : Path t.parentOf oldBlock oldChain common
  newPath : Path t.parentOf newBlock newChain common
  oldApart : ∀ b ∈ oldChain, ¬Ancestor t.parentOf newBlock b
  newApart : ∀ b ∈ newChain, ¬Ancestor t.parentOf oldBlock b

/-- The two branches are found, down to the common block. -/
theorem branches_ok (storedOld : Stored t bc oldBlock) (storedNew : Stored t bc newBlock)
    : ∃ oldChain newChain common, bc.branches t.hash oldBlock newBlock = .ok (oldChain, newChain)
      ∧ Forked t oldBlock newBlock common oldChain newChain := by
  unfold BlockChain.branches
  split
  · rename_i longer
    obtain ⟨reduced, block, done, path, level, stored⟩ :=
      reduce_ok holds newBlock.number (oldBlock.number + 1) storedOld (by omega) (by omega) []
    obtain ⟨oldList, newList, common, found, oldPath, newPath, oldApart, newApart⟩ :=
      findCommon_ok holds stored storedNew level (Nat.lt_succ_self _) reduced []
    refine ⟨reduced ++ oldList, newList, common, ?_, path.append oldPath, newPath, ?_, ?_⟩
    · rw [done]
      exact found
    · intro b mem above
      rcases List.mem_append.mp mem with high | low
      · have higher := ((path.mem_iff BlockTree.graded).mp high).2
        have lower := above.height_le BlockTree.graded
        omega
      · exact oldApart b low above
    · intro b mem above
      have lower := ((newPath.mem_iff BlockTree.graded).mp mem).1.height_le BlockTree.graded
      exact newApart b mem (above.of_le BlockTree.graded path.ancestor (by omega))
  · rename_i notLonger
    obtain ⟨reduced, block, done, path, level, stored⟩ :=
      reduce_ok holds oldBlock.number (newBlock.number + 1) storedNew (by omega) (by omega) []
    obtain ⟨oldList, newList, common, found, oldPath, newPath, oldApart, newApart⟩ :=
      findCommon_ok holds storedOld stored level.symm (Nat.lt_succ_self _) [] reduced
    refine ⟨oldList, reduced ++ newList, common, ?_, oldPath, path.append newPath, ?_, ?_⟩
    · rw [done]
      exact found
    · intro b mem above
      have lower := ((oldPath.mem_iff BlockTree.graded).mp mem).1.height_le BlockTree.graded
      exact oldApart b mem (above.of_le BlockTree.graded path.ancestor (by omega))
    · intro b mem above
      rcases List.mem_append.mp mem with high | low
      · have higher := ((path.mem_iff BlockTree.graded).mp high).2
        have lower := above.height_le BlockTree.graded
        omega
      · exact newApart b low above

end

end GoBinacoin.Chain
