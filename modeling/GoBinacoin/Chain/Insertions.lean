import GoBinacoin.Chain.Reorg

/-! Sequences of insertions into the chain, and the indexes they leave behind. -/

namespace GoBinacoin.Chain

open Types (Header)
open Ancestry

/-- A block is executed and written, or a known one becomes the head. -/
inductive Insertion where
  | write (block : Block) (coin : Bool)
  | known (block : Block)

def Insertion.block : Insertion → Block
  | .write block _ => block
  | .known block => block

def BlockChain.insert (hash : Header → Hash) (shouldPreserve : Option (Block → Bool))
    (bc : BlockChain)
    : Insertion → Except InsertError BlockChain
  | .write block coin => bc.writeBlockWithState hash shouldPreserve block coin
  | .known block => bc.writeKnownBlock hash block

/-- Known blocks are written when their total difficulty is above that of the current block. -/
def Allowed (t : BlockTree) (bc : BlockChain) : Insertion → Prop
  | .write block _ => t.Member block
  | .known block =>
      Stored t bc block
      ∧ ∃ externTd localTd, bc.td (t.key block, block.number) = some externTd
        ∧ bc.td (t.key bc.currentBlock, bc.currentBlock.number) = some localTd
        ∧ localTd < externTd

/-- A chain with nothing but the genesis block. -/
def genesisChain (t : BlockTree) : BlockChain where
  blocks := GoMap.empty.set (t.key t.genesis, 0) t.genesis
  td := GoMap.empty.set (t.key t.genesis, 0) t.genesis.header.difficulty
  canonical := (∅ : Canonical).insert 0 (t.key t.genesis)
  lookup := GoMap.empty
  headBlockHash := t.key t.genesis
  headHeaderHash := t.key t.genesis
  headFastBlockHash := t.key t.genesis
  currentBlock := t.genesis
  currentHeader := t.genesis.header
  currentFastBlock := t.genesis

/-- The chains that successful insertions lead to, where each new head meets a condition. -/
inductive Run (t : BlockTree) (shouldPreserve : Option (Block → Bool))
    (keep : BlockChain → Block → Prop)
    : BlockChain → Prop where
  | start : Run t shouldPreserve keep (genesisChain t)
  | step {bc bc' : BlockChain} {insertion : Insertion} (run : Run t shouldPreserve keep bc)
    (allowed : Allowed t bc insertion)
    (done : bc.insert t.hash shouldPreserve insertion = .ok bc')
    (kept : bc'.currentBlock = insertion.block → keep bc insertion.block)
    : Run t shouldPreserve keep bc'

variable {t : BlockTree} {bc : BlockChain} {shouldPreserve : Option (Block → Bool)} {b : Block}

theorem genesis_member : t.Member t.genesis := t.find_genesis

theorem ancestor_genesis {a : Block} : Ancestor t.parentOf t.genesis a ↔ a = t.genesis :=
  KeyedTree.ancestor_root (t := t.keyed)

/-- Runs start from a sound chain with nothing above its head. -/
theorem genesisChain_sound (t : BlockTree)
    : Sound t (genesisChain t) ∧ NoneAbove (genesisChain t) := by
  have number := t.genesis_number
  have marks : index (genesisChain t).canonical
      = Function.update (fun _ => none) 0 (some (t.key t.genesis)) :=
    index_single 0 (t.key t.genesis)
  refine ⟨?_, ?_⟩
  · refine
      {
        holds := .of_totals (Totals.root t.keyed fun b => b.header.difficulty)
        current := ?_
        nonzero := Nonzero.empty.insert 0 genesis_member.key_ne_zero
        marked := ?_
        looked := ?_
      }
    · change GoMap.set _ _ _ (t.key t.genesis, t.genesis.number) = some t.genesis
      rw [number]
      exact GoMap.set_self ..
    · intro a above
      rw [ancestor_genesis.mp above, marks, number, Function.update_self]
    · intro tx n
      refine ⟨nofun, ?_⟩
      rintro ⟨a, above, positive, -⟩
      exact absurd (ancestor_genesis.mp above ▸ number) positive
  · intro n above
    have positive : 0 < n := Nat.lt_of_le_of_lt (Nat.zero_le _) above
    rw [marks, Function.update_of_ne (by omega)]

variable {p : Block} {ptd : Nat} {insertion : Insertion} {keep : BlockChain → Block → Prop}

/-- Writing a block with a known parent; it may have been there before. -/
theorem writeBlock_holds (holds : Holds t bc) (member : t.Member b)
    (link : t.parentOf b = some p) (storedParent : Stored t bc p)
    (parentTd : bc.td (t.key p, p.number) = some ptd)
    : Holds t (bc.writeBlock t.hash b (b.header.difficulty + ptd))
      ∧ Stored t (bc.writeBlock t.hash b (b.header.difficulty + ptd)) b
      ∧ ∀ c, Stored t bc c → Stored t (bc.writeBlock t.hash b (b.header.difficulty + ptd)) c := by
  have written : Holds t (bc.writeBlock t.hash b (b.header.difficulty + ptd)) :=
    .of_totals (holds.totals.write member link storedParent parentTd)
  have storedSelf : Stored t (bc.writeBlock t.hash b (b.header.difficulty + ptd)) b :=
    GoMap.set_self ..
  refine ⟨written, storedSelf, ?_⟩
  intro c stored
  by_cases same : c = b
  · rw [same]
    exact storedSelf
  · have apart : (t.key c, c.number) ≠ (t.key b, b.number) :=
      fun equal => same ((holds.member stored).key_inj member (Prod.mk.inj equal).1)
    exact (GoMap.set_of_ne _ _ apart).trans stored

theorem writeBlock_sound (sound : Sound t bc) (member : t.Member b)
    (link : t.parentOf b = some p) (storedParent : Stored t bc p)
    (parentTd : bc.td (t.key p, p.number) = some ptd)
    : Sound t (bc.writeBlock t.hash b (b.header.difficulty + ptd))
      ∧ Stored t (bc.writeBlock t.hash b (b.header.difficulty + ptd)) b := by
  obtain ⟨holds, stored, stays⟩ := writeBlock_holds sound.holds member link storedParent parentTd
  exact ⟨⟨holds, stays _ sound.current, sound.nonzero, sound.marked, sound.looked⟩, stored⟩

theorem parent_of_td (holds : Holds t bc) (member : t.Member b)
    (known : bc.td (b.parentHash, b.number - 1) = some ptd)
    : ∃ p, t.parentOf b = some p ∧ Stored t bc p
      ∧ bc.td (t.key p, p.number) = some ptd :=
  holds.totals.parent_of_total member known

/-- What an insertion does, unless it fails for want of the parent: it leaves the head, or sets
it.
-/
theorem insert_cases {bc' : BlockChain} (sound : Sound t bc) (allowed : Allowed t bc insertion)
    (done : bc.insert t.hash shouldPreserve insertion = .ok bc')
    : Sound t bc'
      ∧ ((bc'.currentBlock = bc.currentBlock ∧ bc'.canonical = bc.canonical)
        ∨ (bc'.currentBlock = insertion.block
          ∧ (NoneAbove bc → (NoneAbove bc' ↔ ¬Strands t bc insertion.block)))) := by
  cases insertion with
  | known b =>
    obtain ⟨stored, externTd, localTd, externKnown, localKnown, higher⟩ := allowed
    have notBelow : Ancestor t.parentOf bc.currentBlock b → b = bc.currentBlock := by
      intro above
      have lower := (sound.holds.total_le sound.current above localKnown externKnown).1
      omega
    obtain ⟨after, set, soundAfter, head, above⟩ := setHead_ok sound stored notBelow
    cases set.symm.trans done
    exact ⟨soundAfter, .inr ⟨head, above⟩⟩
  | write b coin =>
    have member : t.Member b := allowed
    rw [BlockChain.insert, BlockChain.writeBlockWithState] at done
    rcases known : bc.td (b.parentHash, b.number - 1) with _ | ptd
    · rw [known] at done
      cases done
    obtain ⟨p, link, storedParent, parentTd⟩ := parent_of_td sound.holds member known
    obtain ⟨soundWritten, storedWritten⟩ := writeBlock_sound sound member link storedParent parentTd
    obtain ⟨localTd, localKnown⟩ := sound.holds.difficulty sound.current
    rw [known] at done
    dsimp only at done
    have currentTd : bc.td (BlockChain.blockHash t.hash bc.currentBlock,
        bc.currentBlock.number) = some localTd := localKnown
    rw [currentTd, Option.getD_some] at done
    split at done
    · rename_i winning
      have notBelow : Ancestor t.parentOf bc.currentBlock b → b = bc.currentBlock := by
        intro above
        by_contra apart
        have storedBefore := sound.holds.ancestor sound.current above
        obtain ⟨own, total⟩ := sound.holds.difficulty storedBefore
        have lower := (sound.holds.total_le sound.current above localKnown total).2 apart
        have sum := sound.holds.total storedBefore link total parentTd
        unfold BlockChain.wins at winning
        rw [if_neg (by omega), if_neg (by omega)] at winning
        cases winning
      obtain ⟨after, set, soundAfter, head, above⟩ := setHead_ok soundWritten storedWritten notBelow
      cases set.symm.trans done
      exact ⟨soundAfter, .inr ⟨head, above⟩⟩
    · cases done
      exact ⟨soundWritten, .inl ⟨rfl, rfl⟩⟩

theorem Run.sound (run : Run t shouldPreserve keep bc) : Sound t bc := by
  induction run with
  | start => exact (genesisChain_sound t).1
  | step run allowed done kept ih => exact (insert_cases ih allowed done).1

theorem Run.weaken (run : Run t shouldPreserve keep bc)
    : Run t shouldPreserve (fun _ _ => True) bc := by
  induction run with
  | start => exact .start
  | step _ allowed done _ ih => exact .step ih allowed done fun _ => trivial

/-- The canonical hashes are those of the ancestors of the current block, and no others. -/
structure Consistent (t : BlockTree) (bc : BlockChain) : Prop where
  ancestors : ∀ n, n ≤ bc.currentBlock.number → ∃ a, Ancestor t.parentOf bc.currentBlock a
    ∧ a.number = n ∧ readCanonicalHash bc.canonical n = t.key a
  above : ∀ n, bc.currentBlock.number < n → readCanonicalHash bc.canonical n = 0

/-- A sound chain is consistent exactly if nothing is left above its head. -/
theorem Sound.consistent_iff (sound : Sound t bc) : Consistent t bc ↔ NoneAbove bc := by
  constructor
  · intro consistent n above
    exact (readCanonicalHash_eq_zero sound.nonzero).mp (consistent.above n above)
  · intro none
    refine ⟨?_, ?_⟩
    · intro n le
      obtain ⟨a, above, found⟩ := sound.member.exists_ancestor le
      refine ⟨a, above, found, ?_⟩
      rw [readCanonicalHash, ← found, sound.marked a above]
      rfl
    · intro n above
      exact (readCanonicalHash_eq_zero sound.nonzero).mpr (none n above)

/-- By induction on the run: no insertion leaves a hash above the head. -/
theorem Run.noneAbove (run : Run t shouldPreserve (fun bc b => ¬Strands t bc b) bc)
    : NoneAbove bc := by
  induction run with
  | start => exact (genesisChain_sound t).2
  | @step bc bc' insertion run allowed done kept ih =>
    rcases (insert_cases run.sound allowed done).2 with left | ⟨head, iff⟩
    · intro n above
      rw [left.1] at above
      rw [left.2]
      exact ih n above
    · exact (iff ih).mpr (kept head)

/-- A sample block: its hash, its parent's, number, difficulty and transactions. -/
def sampleBlock (hash parentHash : Hash) (number difficulty : Nat) (transactions : List Hash)
    : Block where
  header := { root := hash, parentHash := parentHash, number := number, difficulty := difficulty }
  transactions := transactions

/-- Two light blocks on the genesis block, and a heavy one with a transaction of the first. -/
def sampleBlocks : List Block :=
  [sampleBlock 1 0 0 1 [], sampleBlock 2 1 1 1 [7], sampleBlock 3 2 2 1 [8],
    sampleBlock 4 1 1 9 [7], sampleBlock 5 4 2 1 []]

def sampleFind (h : Hash) : Option Block := sampleBlocks.find? fun b => b.header.root = h

abbrev sampleParent (b : Block) : Option Block :=
  (sampleFind b.parentHash).filter fun p => b.number = p.number + 1

theorem sampleFind_mem {h : Hash} (found : sampleFind h = some b) : b ∈ sampleBlocks :=
  List.mem_of_find?_eq_some found

/-- No branch of the sample has a transaction twice. -/
theorem sampleBlocks_once {h tx : Hash} {a a' : Block} (found : sampleFind h = some b)
    (above : Ancestor sampleParent b a) (above' : Ancestor sampleParent b a')
    (inside : tx ∈ a.transactions) (inside' : tx ∈ a'.transactions)
    : a = a' := by
  have inList {b a : Block} (mem : b ∈ sampleBlocks) (above : Ancestor sampleParent b a)
      : a ∈ sampleBlocks := by
    induction above using Relation.ReflTransGen.head_induction_on with
    | refl => exact mem
    | head link _ ih => exact ih (sampleFind_mem (Option.filter_eq_some_iff.mp link).1)
  have level : (sampleBlocks.all fun a => sampleBlocks.all fun a' =>
      a.transactions.all fun tx => a'.transactions.all fun tx' =>
        tx != tx' || a.number == a'.number) = true := by
    decide +kernel
  have mem := inList (sampleFind_mem found) above
  have mem' := inList (sampleFind_mem found) above'
  simp only [List.all_eq_true] at level
  have same := level a mem a' mem' tx inside tx inside'
  refine above.unique ?_ above' (by simpa using same)
  intro b p link
  exact of_decide_eq_true (Option.filter_eq_some_iff.mp link).2

def sampleTree : BlockTree where
  hash header := header.root
  find := sampleFind
  genesis := sampleBlock 1 0 0 1 []
  find_hash {h b} found := by
    have same := List.find?_some found
    exact of_decide_eq_true same
  find_genesis := by decide +kernel
  genesis_number := rfl
  genesis_parent := by decide +kernel
  genesis_transactions := rfl
  zero := by decide +kernel
  bottom found zero := by
    have all : ∀ b ∈ sampleBlocks, b.number = 0 → b = sampleBlock 1 0 0 1 [] := by
      decide +kernel
    exact all _ (sampleFind_mem found) zero
  parent found positive := by
    have all : ∀ b ∈ sampleBlocks, b.number ≠ 0 → ∃ p ∈ sampleBlocks,
        sampleFind b.parentHash = some p ∧ b.number = p.number + 1 := by
      decide +kernel
    obtain ⟨p, -, facts⟩ := all _ (sampleFind_mem found) positive
    exact ⟨p, facts⟩
  difficulty found positive := by
    have all : ∀ b ∈ sampleBlocks, b.number ≠ 0 → 0 < b.header.difficulty := by decide +kernel
    exact all _ (sampleFind_mem found) positive
  once found _ _ _ above above' inside inside' :=
    sampleBlocks_once found above above' inside inside'

/-- The two light blocks, then the heavy one and a block on top of it. -/
def sampleInsertions : List Insertion :=
  [.write (sampleBlock 2 1 1 1 [7]) false, .write (sampleBlock 3 2 2 1 [8]) false,
    .write (sampleBlock 4 1 1 9 [7]) false, .write (sampleBlock 5 4 2 1 []) false]

def sampleChain (n : Nat) : Except InsertError BlockChain :=
  (sampleInsertions.take n).foldlM (BlockChain.insert sampleTree.hash none)
    (genesisChain sampleTree)

theorem sampleChain_step {n : Nat}
    (next : sampleInsertions[n]? = some insertion) (before : sampleChain n = .ok bc)
    : sampleChain (n + 1) = bc.insert sampleTree.hash none insertion := by
  have done : (sampleInsertions.take n).foldlM (BlockChain.insert sampleTree.hash none)
      (genesisChain sampleTree) = .ok bc := before
  rw [sampleChain, List.take_add_one, next, List.foldlM_append, done]
  exact bind_pure (bc.insert sampleTree.hash none insertion)

/-- The state after a number of sample insertions, with its head. -/
theorem sampleChain_head (n : Nat) (head : Block)
    (computed : (sampleChain n).toOption.map BlockChain.currentBlock = some head)
    : ∃ bc, sampleChain n = .ok bc ∧ bc.currentBlock = head := by
  rcases result : sampleChain n with err | bc
  · rw [result] at computed
    cases computed
  · rw [result] at computed
    exact ⟨bc, rfl, Option.some.inj computed⟩

theorem sampleChain_first
    : ∃ bc, sampleChain 1 = .ok bc ∧ bc.currentBlock = sampleBlock 2 1 1 1 [7]
      ∧ Run sampleTree none (fun bc b => ¬Strands sampleTree bc b) bc := by
  obtain ⟨first, done, head⟩ := sampleChain_head 1 (sampleBlock 2 1 1 1 [7]) (by decide +kernel)
  have written := (sampleChain_step (n := 0) rfl rfl).symm.trans done
  refine ⟨first, done, head, .step .start ?_ written ?_⟩
  · exact (by decide +kernel : sampleFind 2 = some (sampleBlock 2 1 1 1 [7]))
  · rintro - ⟨lower, -⟩
    exact absurd lower (by decide)

/-- The second block extends the first. -/
theorem sampleChain_run
    : ∃ bc, sampleChain 2 = .ok bc ∧ bc.currentBlock = sampleBlock 3 2 2 1 [8]
      ∧ Run sampleTree none (fun bc b => ¬Strands sampleTree bc b) bc := by
  obtain ⟨first, done, head, run⟩ := sampleChain_first
  obtain ⟨second, done', head'⟩ := sampleChain_head 2 (sampleBlock 3 2 2 1 [8]) (by decide +kernel)
  have written := (sampleChain_step rfl done).symm.trans done'
  refine ⟨second, done', head', .step run ?_ written ?_⟩
  · exact (by decide +kernel : sampleFind 3 = some (sampleBlock 3 2 2 1 [8]))
  · rintro - ⟨lower, -⟩
    rw [head] at lower
    exact absurd lower (by decide)

/-- As long as no single block replaces a longer branch, the canonical hashes are right after every
insertion; and the first head that does replace one leaves hashes of the old branch above it.
-/
theorem canonical_consistent_iff
    (run : Run t shouldPreserve (fun bc b => ¬Strands t bc b) bc)
    : Consistent t bc
      ∧ ∀ insertion bc', Allowed t bc insertion
        → bc.insert t.hash shouldPreserve insertion = .ok bc'
        → bc'.currentBlock = insertion.block
        → (Consistent t bc' ↔ ¬Strands t bc insertion.block) := by
  have sound := run.sound
  have none := run.noneAbove
  refine ⟨sound.consistent_iff.mpr none, ?_⟩
  intro insertion bc' allowed done head
  obtain ⟨soundAfter, outcome⟩ := insert_cases sound allowed done
  rw [soundAfter.consistent_iff]
  rcases outcome with ⟨sameHead, sameIndex⟩ | ⟨-, iff⟩
  · -- The block was the current one, and stays it.
    refine ⟨?_, ?_⟩
    · rintro - ⟨lower, -⟩
      rw [← head, sameHead] at lower
      exact Nat.lt_irrefl _ lower
    · intro _ n above
      rw [sameHead] at above
      rw [sameIndex]
      exact none n above
  · exact iff none

/-- The heavy block replaces the first light one, at the same height. -/
theorem canonical_consistent_iff_sample
    : ∃ bc bc' : BlockChain, bc.currentBlock = sampleBlock 2 1 1 1 [7]
      ∧ bc.insert sampleTree.hash none (.write (sampleBlock 4 1 1 9 [7]) false) = .ok bc'
      ∧ bc'.currentBlock = sampleBlock 4 1 1 9 [7] ∧ Consistent sampleTree bc' := by
  obtain ⟨bc, done, head, run⟩ := sampleChain_first
  have replaced : ((sampleChain 1).toOption.map fun bc => (bc.insert sampleTree.hash none
      (.write (sampleBlock 4 1 1 9 [7]) false)).toOption.map BlockChain.currentBlock)
      = some (some (sampleBlock 4 1 1 9 [7])) := by
    decide +kernel
  rw [done] at replaced
  have replaced := Option.some.inj replaced
  dsimp only at replaced
  rcases written : bc.insert sampleTree.hash none (.write (sampleBlock 4 1 1 9 [7]) false)
    with err | bc'
  · rw [written] at replaced
    cases replaced
  rw [written] at replaced
  have head' : bc'.currentBlock = sampleBlock 4 1 1 9 [7] := Option.some.inj replaced
  have member : sampleFind 4 = some (sampleBlock 4 1 1 9 [7]) := by decide +kernel
  refine ⟨bc, bc', head, written, head', ?_⟩
  refine ((canonical_consistent_iff run).2 (.write (sampleBlock 4 1 1 9 [7]) false) bc' member
    written head').mpr ?_
  rintro ⟨lower, -⟩
  rw [head] at lower
  exact absurd lower (by decide)

/-- The heavy block becomes the head at height 1, and the hash of the light one at height 2 stays.
-/
theorem canonical_hash_stranded
    : ∃ bc, sampleChain 3 = .ok bc ∧ bc.currentBlock = sampleBlock 4 1 1 9 [7]
      ∧ readCanonicalHash bc.canonical 2 = 3 ∧ ¬Consistent sampleTree bc := by
  obtain ⟨bc, done, head⟩ :=
    sampleChain_head 3 (sampleBlock 4 1 1 9 [7]) (by decide +kernel)
  have stale : (sampleChain 3).toOption.map (fun bc => readCanonicalHash bc.canonical 2)
      = some 3 := by
    decide +kernel
  rw [done] at stale
  have left : readCanonicalHash bc.canonical 2 = 3 := Option.some.inj stale
  refine ⟨bc, done, head, left, ?_⟩
  intro consistent
  have cleared := consistent.above 2 (by rw [head]; decide)
  rw [left] at cleared
  exact absurd cleared (by decide)

/-- After every insertion, the transactions with a lookup entry are those of the canonical chain
above the genesis block, under the number of their block.
-/
theorem lookup_entries_consistent (t : BlockTree) (shouldPreserve : Option (Block → Bool))
    {bc : BlockChain} (run : Run t shouldPreserve (fun _ _ => True) bc) (tx : Hash) (n : Nat)
    : bc.lookup tx = some n
      ↔ ∃ a, Ancestor t.parentOf bc.currentBlock a ∧ a.number ≠ 0 ∧ a.number = n
        ∧ tx ∈ a.transactions :=
  run.sound.looked tx n

/-- The transaction of the light branch that the heavy block has too is looked up there. -/
theorem lookup_entries_consistent_sample
    : ∃ bc, sampleChain 3 = .ok bc ∧ bc.currentBlock = sampleBlock 4 1 1 9 [7]
      ∧ bc.lookup 7 = some 1 := by
  obtain ⟨before, done, -, run⟩ := sampleChain_run
  obtain ⟨bc, done', head⟩ :=
    sampleChain_head 3 (sampleBlock 4 1 1 9 [7]) (by decide +kernel)
  have written := (sampleChain_step rfl done).symm.trans done'
  have member : sampleFind 4 = some (sampleBlock 4 1 1 9 [7]) := by decide +kernel
  have run' : Run sampleTree none (fun _ _ => True) bc := by
    refine .step run.weaken ?_ written fun _ => trivial
    exact member
  refine ⟨bc, done', head, ?_⟩
  refine (lookup_entries_consistent sampleTree none run' 7 1).mpr ?_
  rw [head]
  exact ⟨sampleBlock 4 1 1 9 [7], .refl _, by decide, rfl, by decide⟩

end GoBinacoin.Chain
