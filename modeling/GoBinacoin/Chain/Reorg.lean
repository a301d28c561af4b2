import GoBinacoin.Chain.Tree

/-! After every switch to a new head the canonical hashes give its ancestors, and the lookup entries
the transactions of their blocks. The hashes above a head that replaces a longer branch by a single
block stay.
-/

namespace GoBinacoin.Chain

open Ancestry BlockTree

variable {t : BlockTree} {bc : BlockChain} {a b p common oldBlock : Block}
  {oldChain newChain : List Block}

/-- The canonical hashes up to a block are those of its ancestors. -/
def MarkedUp (t : BlockTree) (canonical : Canonical) (head : Block) : Prop :=
  Marked t.parentOf Block.number t.key (index canonical) head

/-- The lookup entries are those of the transactions above the genesis. -/
def LookedUp (t : BlockTree) (lookup : GoMap Hash Nat) (head : Block) : Prop :=
  ∀ tx n, lookup tx = some n
    ↔ ∃ a, Ancestor t.parentOf head a ∧ a.number ≠ 0 ∧ a.number = n ∧ tx ∈ a.transactions

/-- The blocks of a list are written as heads, the last one first. -/
def writeAll (t : BlockTree) (bc : BlockChain) (list : List Block) : BlockChain :=
  list.foldr (fun b bc => bc.writeHeadBlock t.hash b) bc

variable (list : List Block)

theorem writeAll_canonical
    : index (writeAll t bc list).canonical
      = list.foldr
        (fun b (marks : Nat → Option Hash) => Function.update marks b.number (some (t.key b)))
        (index bc.canonical) := by
  induction list with
  | nil => rfl
  | cons b list ih =>
    rw [List.foldr_cons, ← ih]
    exact index_insert _ _ _

theorem writeAll_database
    : (writeAll t bc list).blocks = bc.blocks ∧ (writeAll t bc list).td = bc.td := by
  induction list with
  | nil => exact ⟨rfl, rfl⟩
  | cons b list ih => exact ih

theorem writeAll_current : (writeAll t bc list).currentBlock = list.head?.getD bc.currentBlock := by
  cases list <;> rfl

theorem MarkedUp.writeAll (path : Path t.parentOf b newChain common)
    (marked : MarkedUp t bc.canonical common)
    : MarkedUp t (writeAll t bc newChain).canonical b := by
  unfold MarkedUp
  rw [writeAll_canonical]
  exact Marked.writes graded path marked

variable {canonical : Canonical} {list : List Block} {tx : Hash} {bc' : BlockChain}

theorem MarkedUp.deleteAbove (nonzero : Nonzero canonical)
    (marked : MarkedUp t canonical b) {start : Nat} (above : b.number < start)
    : MarkedUp t (deleteAbove canonical start) b :=
  Marked.congr graded marked fun _ le => deleteAbove_below nonzero (by omega)

theorem MarkedUp.insert (marked : MarkedUp t canonical p) (link : t.parentOf b = some p)
    : MarkedUp t (canonical.insert b.number (t.key b)) b := by
  unfold MarkedUp
  rw [index_insert]
  exact Marked.write graded marked link

theorem Nonzero.writeAll (nonzero : Nonzero bc.canonical) (members : ∀ b ∈ list, t.Member b)
    : Nonzero (writeAll t bc list).canonical := by
  induction list with
  | nil => exact nonzero
  | cons b list ih =>
    exact (ih fun c mem => members c (.tail _ mem)).insert _
      (members b List.mem_cons_self).key_ne_zero

theorem foldl_apply {f : GoMap Hash Nat → Hash → GoMap Hash Nat} {value : Option Nat}
    (writes : ∀ lookup key tx, f lookup key tx = if tx = key then value else lookup tx)
    (transactions : List Hash) (lookup : GoMap Hash Nat) (tx : Hash)
    : transactions.foldl f lookup tx = if tx ∈ transactions then value else lookup tx := by
  induction transactions generalizing lookup with
  | nil => simp
  | cons first transactions ih =>
    rw [List.foldl_cons, ih, writes]
    by_cases same : tx = first <;> simp [same]

theorem writeHeadBlock_lookup (b : Block) (tx : Hash)
    : (bc.writeHeadBlock t.hash b).lookup tx
      = if tx ∈ b.transactions then some b.number else bc.lookup tx :=
  foldl_apply (fun lookup key tx => lookup.set_apply key tx b.number) b.transactions bc.lookup tx

/-- Other transactions are looked up as before. -/
theorem writeAll_lookup_of_notMem (absent : ∀ b ∈ list, tx ∉ b.transactions)
    : (writeAll t bc list).lookup tx = bc.lookup tx := by
  induction list with
  | nil => rfl
  | cons b list ih =>
    have rest := ih fun c mem => absent c (.tail _ mem)
    rw [writeAll, List.foldr_cons, writeHeadBlock_lookup, if_neg (absent b List.mem_cons_self)]
    exact rest

/-- A transaction that is in one block of the list only gets its number. -/
theorem writeAll_lookup_of_mem (mem : b ∈ list)
    (inside : tx ∈ b.transactions) (single : ∀ c ∈ list, tx ∈ c.transactions → c = b)
    : (writeAll t bc list).lookup tx = some b.number := by
  induction list with
  | nil => cases mem
  | cons first list ih =>
    rw [writeAll, List.foldr_cons, writeHeadBlock_lookup]
    split
    · rename_i here
      rw [single first List.mem_cons_self here]
    · rename_i elsewhere
      rcases List.mem_cons.mp mem with rfl | later
      · exact absurd inside elsewhere
      · exact ih later fun c member => single c (.tail _ member)

/-- The loops of `reorg` write the new branch but for its head, and change the lookup entries. -/
theorem rewrite_eq (oldChain newChain : List Block)
    : bc.rewrite t.hash oldChain newChain
      = { writeAll t bc newChain.tail with
          lookup := (txDifference (oldChain.flatMap Block.transactions)
            (newChain.tail.reverse.flatMap Block.transactions)).foldl
              (fun lookup tx => lookup.delete tx) (writeAll t bc newChain.tail).lookup
          canonical := deleteAbove (writeAll t bc newChain.tail).canonical
            ((writeAll t bc newChain.tail).currentBlock.number + 1) } := by
  have inserted : newChain.tail.reverse.foldl (BlockChain.writeHeadBlock t.hash) bc
      = writeAll t bc newChain.tail :=
    List.foldl_reverse
  unfold BlockChain.rewrite
  dsimp only
  rw [inserted]

/-- Transactions of the old branch are gone unless the new one has them. -/
theorem rewrite_lookup (oldChain newChain : List Block) (tx : Hash)
    : (bc.rewrite t.hash oldChain newChain).lookup tx
      = if (∃ b ∈ oldChain, tx ∈ b.transactions) ∧ ¬∃ b ∈ newChain.tail, tx ∈ b.transactions
        then none else (writeAll t bc newChain.tail).lookup tx := by
  rw [rewrite_eq]
  dsimp only
  rw [foldl_apply fun lookup key tx => lookup.delete_apply key tx]
  refine if_congr ?_ rfl rfl
  simp [txDifference, List.mem_filter, List.mem_flatMap]

theorem rewrite_lookup_nil (short : newChain.tail = [])
    : (bc.rewrite t.hash [] newChain).lookup = bc.lookup := by
  funext tx
  have unchanged : ¬((∃ b ∈ ([] : List Block), tx ∈ b.transactions)
      ∧ ¬∃ b ∈ newChain.tail, tx ∈ b.transactions) := by
    rintro ⟨⟨b, mem, -⟩, -⟩
    cases mem
  rw [rewrite_lookup, if_neg unchanged, short]
  rfl

theorem BlockTree.Member.number_ne_zero (member : t.Member b) (inside : tx ∈ b.transactions)
    : b.number ≠ 0 := by
  intro zero
  rw [member.eq_genesis zero, t.genesis_transactions] at inside
  cases inside

/-- The transactions of a branch that replaces another one are looked up. -/
theorem LookedUp.rewrite (member : t.Member b) (memberOld : t.Member oldBlock)
    (forked : Forked t oldBlock b common oldChain newChain)
    (branch : newChain = b :: newChain.tail) (looked : LookedUp t bc.lookup oldBlock)
    : LookedUp t ((bc.rewrite t.hash oldChain newChain).writeHeadBlock t.hash b).lookup b := by
  have inNew {c : Block} : c ∈ newChain ↔ Ancestor t.parentOf b c ∧ common.number < c.number :=
    forked.newPath.mem_iff graded
  have inOld {c : Block}
      : c ∈ oldChain ↔ Ancestor t.parentOf oldBlock c ∧ common.number < c.number :=
    forked.oldPath.mem_iff graded
  have tailSubset {c : Block} (mem : c ∈ newChain.tail) : c ∈ newChain := List.mem_of_mem_tail mem
  intro tx n
  rw [writeHeadBlock_lookup, rewrite_lookup]
  by_cases top : tx ∈ b.transactions
  · -- The new head comes last.
    rw [if_pos top]
    have positive := member.number_ne_zero top
    constructor
    · intro same
      exact ⟨b, .refl b, positive, Option.some.inj same, top⟩
    · rintro ⟨a, above, -, rfl, inside⟩
      rw [member.once (.refl b) above top inside]
  · rw [if_neg top]
    by_cases added : ∃ c ∈ newChain.tail, tx ∈ c.transactions
    · rw [if_neg fun deleted => deleted.2 added]
      obtain ⟨c, mem, inside⟩ := added
      obtain ⟨above, higher⟩ := inNew.mp (tailSubset mem)
      have single : ∀ d ∈ newChain.tail, tx ∈ d.transactions → d = c :=
        fun d mem' inside' => member.once (inNew.mp (tailSubset mem')).1 above inside' inside
      rw [writeAll_lookup_of_mem mem inside single]
      constructor
      · intro same
        exact ⟨c, above, by omega, Option.some.inj same, inside⟩
      · rintro ⟨a, above', -, rfl, inside'⟩
        rw [member.once above above' inside inside']
    · -- Neither the new head nor the blocks below it have the transaction.
      have notNew : ∀ c ∈ newChain, tx ∉ c.transactions := by
        intro c mem inside
        rw [branch] at mem
        rcases List.mem_cons.mp mem with rfl | later
        · exact top inside
        · exact added ⟨c, later, inside⟩
      have fromCommon {a : Block} (above : Ancestor t.parentOf b a) (inside : tx ∈ a.transactions)
          : Ancestor t.parentOf common a := by
        refine above.of_le graded forked.newPath.ancestor ?_
        by_contra higher
        exact notNew a (inNew.mpr ⟨above, by omega⟩) inside
      by_cases deleted : ∃ c ∈ oldChain, tx ∈ c.transactions
      · rw [if_pos ⟨deleted, added⟩]
        obtain ⟨c, mem, inside⟩ := deleted
        constructor
        · exact nofun
        · rintro ⟨a, above, -, -, inside'⟩
          have old := forked.oldPath.ancestor.trans (fromCommon above inside')
          have same := memberOld.once (inOld.mp mem).1 old inside inside'
          exact absurd (same ▸ above) (forked.oldApart c mem)
      · rw [if_neg fun both => deleted both.1, writeAll_lookup_of_notMem, looked]
        · constructor
          · rintro ⟨a, above, positive, same, inside⟩
            refine ⟨a, forked.newPath.ancestor.trans ?_, positive, same, inside⟩
            refine above.of_le graded forked.oldPath.ancestor ?_
            by_contra higher
            exact deleted ⟨a, inOld.mpr ⟨above, by omega⟩, inside⟩
          · rintro ⟨a, above, positive, same, inside⟩
            exact ⟨a, forked.oldPath.ancestor.trans (fromCommon above inside), positive, same,
              inside⟩
        · exact fun c mem inside => added ⟨c, mem, inside⟩

/-- The database holds a part of the tree, and the indexes of the current block are right up to its
number.
-/
structure Sound (t : BlockTree) (bc : BlockChain) : Prop where
  holds : Holds t bc
  current : Stored t bc bc.currentBlock
  nonzero : Nonzero bc.canonical
  marked : MarkedUp t bc.canonical bc.currentBlock
  looked : LookedUp t bc.lookup bc.currentBlock

/-- No canonical hash is stored above the current block. -/
def NoneAbove (bc : BlockChain) : Prop :=
  ∀ n, bc.currentBlock.number < n → index bc.canonical n = none

/-- The block is put on an ancestor of the current one, which it leaves behind at a greater height.
-/
def Strands (t : BlockTree) (bc : BlockChain) (b : Block) : Prop :=
  b.number < bc.currentBlock.number
  ∧ ∃ p, t.parentOf b = some p ∧ Ancestor t.parentOf bc.currentBlock p

theorem Sound.member (sound : Sound t bc) : t.Member bc.currentBlock :=
  sound.holds.member sound.current

theorem Sound.index_ne_none (sound : Sound t bc) {n : Nat} (le : n ≤ bc.currentBlock.number)
    : index bc.canonical n ≠ none := by
  obtain ⟨a, above, rfl⟩ := sound.member.exists_ancestor le
  rw [sound.marked a above]
  exact nofun

/-- The current block after the blocks below the new head were inserted: its parent, or the old
head above that parent.
-/
theorem writeAll_current_cases {rest : List Block} (path : Path t.parentOf p rest common)
    (above : Ancestor t.parentOf bc.currentBlock common)
    : (rest = [] ∧ p = common ∧ (writeAll t bc rest).currentBlock = bc.currentBlock)
      ∨ (rest ≠ [] ∧ (writeAll t bc rest).currentBlock = p) := by
  rw [writeAll_current]
  cases path with
  | nil => exact .inl ⟨rfl, rfl, rfl⟩
  | cons => exact .inr ⟨List.cons_ne_nil _ _, rfl⟩

section

variable {rest : List Block} (sound : Sound t bc) (member : t.Member b)
  (forked : Forked t bc.currentBlock b common oldChain (b :: rest))
  (path : Path t.parentOf p rest common)

include sound member forked

theorem writeAll_nonzero : Nonzero (writeAll t bc rest).canonical := by
  refine sound.nonzero.writeAll ?_
  intro c mem
  have inside := (forked.newPath.mem_iff graded).mp (.tail _ mem)
  exact member.ancestor inside.1

include path

/-- The parent of the new head is indexed before the head is written. -/
theorem rewrite_marked : MarkedUp t (bc.rewrite t.hash oldChain (b :: rest)).canonical p := by
  have marked : MarkedUp t (writeAll t bc rest).canonical p :=
    MarkedUp.writeAll path (sound.marked.ancestor forked.oldPath.ancestor)
  rw [rewrite_eq]
  refine marked.deleteAbove (writeAll_nonzero sound member forked) ?_
  rw [List.tail_cons]
  rcases writeAll_current_cases path forked.oldPath.ancestor with ⟨-, rfl, same⟩ | ⟨-, same⟩
  · rw [same]
    have lower := forked.oldPath.ancestor.height_le graded
    omega
  · rw [same]
    omega

/-- What is left above the new head: the old branch, unless a block was inserted below the head. -/
theorem rewrite_above (link : t.parentOf b = some p) (none : NoneAbove bc) {n : Nat}
    (above : b.number < n)
    : index (bc.rewrite t.hash oldChain (b :: rest)).canonical n = .none
      ↔ rest ≠ [] ∨ bc.currentBlock.number < n := by
  have nonzero := writeAll_nonzero sound member forked
  have next := graded link
  rw [rewrite_eq]
  dsimp
  rcases writeAll_current_cases path forked.oldPath.ancestor with ⟨rfl, -, same⟩ | ⟨long, same⟩
  · rw [same]
    by_cases high : bc.currentBlock.number < n
    · refine ⟨fun _ => .inr high, fun _ => ?_⟩
      rw [deleteAbove_lookup nonzero]
      split
      · rfl
      · exact none n high
    · rw [deleteAbove_below nonzero (by omega)]
      refine ⟨fun absent => absurd absent (sound.index_ne_none (by omega)), ?_⟩
      rintro (long | high')
      · exact absurd rfl long
      · exact absurd high' high
  · refine ⟨fun _ => .inl long, fun _ => ?_⟩
    rw [same]
    -- Before the deletion the index has no gap up to the higher one of the two branches.
    have marked : MarkedUp t (writeAll t bc rest).canonical p :=
      MarkedUp.writeAll path (sound.marked.ancestor forked.oldPath.ancestor)
    have memberParent := Member.of_parentOf link
    have elsewhere {m : Nat} (high : p.number < m)
        : index (writeAll t bc rest).canonical m = index bc.canonical m := by
      rw [writeAll_canonical]
      refine writes_apply_of_notMem ?_
      intro c mem
      have lower := ((path.mem_iff graded).mp mem).1.height_le graded
      omega
    refine deleteAbove_contiguous nonzero (max p.number bc.currentBlock.number) ?_ ?_ (by omega)
    · intro m le
      by_cases low : m ≤ p.number
      · obtain ⟨a, ancestor, rfl⟩ := memberParent.exists_ancestor low
        rw [marked a ancestor]
        exact nofun
      · rw [elsewhere (by omega)]
        exact sound.index_ne_none (by omega)
    · intro m lt
      rw [elsewhere (by omega)]
      exact none m (by omega)

end

theorem Holds.of_database (holds : Holds t bc) (blocks : bc'.blocks = bc.blocks)
    (td : bc'.td = bc.td)
    : Holds t bc' := by
  refine .of_totals ?_
  rw [blocks, td]
  exact holds.totals

/-- A stored child of a marked block may become the head. -/
theorem Sound.writeHead (holds : Holds t bc') (stored : Stored t bc' b)
    (nonzero : Nonzero bc'.canonical) (link : t.parentOf b = some p)
    (marked : MarkedUp t bc'.canonical p)
    (looked : LookedUp t (bc'.writeHeadBlock t.hash b).lookup b)
    : Sound t (bc'.writeHeadBlock t.hash b) :=
  {
    holds := holds.of_database rfl rfl
    current := stored
    nonzero := nonzero.insert _ (holds.member stored).key_ne_zero
    marked := marked.insert link
    looked := looked
  }

theorem index_writeHeadBlock (b : Block)
    : index (bc'.writeHeadBlock t.hash b).canonical
      = Function.update (index bc'.canonical) b.number (some (t.key b)) :=
  index_insert _ _ _

/-- Writing the head does not touch the hashes above it. -/
theorem noneAbove_writeHead
    : NoneAbove (bc'.writeHeadBlock t.hash b)
      ↔ ∀ n, b.number < n → index bc'.canonical n = none := by
  have elsewhere {n : Nat} (above : b.number < n)
      : index (bc'.writeHeadBlock t.hash b).canonical n = index bc'.canonical n := by
    rw [index_writeHeadBlock, Function.update_of_ne (by omega)]
  constructor
  · intro none n above
    rw [← elsewhere above]
    exact none n above
  · intro none n above
    have high : b.number < n := above
    rw [elsewhere high]
    exact none n high

variable (sound : Sound t bc)
include sound

/-- A block on top of the current one becomes the head. -/
theorem extend_ok (stored : Stored t bc b) (link : t.parentOf b = some bc.currentBlock)
    : Sound t (bc.writeHeadBlock t.hash b)
      ∧ (NoneAbove bc → (NoneAbove (bc.writeHeadBlock t.hash b) ↔ ¬Strands t bc b)) := by
  have next := graded link
  have member := sound.holds.member stored
  have forked : Forked t bc.currentBlock b bc.currentBlock [] [b] := by
    refine ⟨.nil _, .cons link (.nil _), fun _ mem => (nomatch mem), ?_⟩
    intro c mem above
    rw [List.mem_singleton.mp mem] at above
    have lower := above.height_le graded
    omega
  have looked := sound.looked.rewrite member sound.member forked rfl
  have same : ((bc.rewrite t.hash [] [b]).writeHeadBlock t.hash b).lookup
      = (bc.writeHeadBlock t.hash b).lookup := by
    funext tx
    rw [writeHeadBlock_lookup, writeHeadBlock_lookup, rewrite_lookup_nil rfl]
  rw [same] at looked
  refine ⟨.writeHead sound.holds stored sound.nonzero link sound.marked looked, ?_⟩
  intro none
  rw [noneAbove_writeHead]
  refine ⟨fun _ strands => ?_, fun _ n above => none n (by omega)⟩
  have := strands.1
  omega

/-- A reorganisation to the current block changes nothing that matters. -/
theorem rewrite_self
    : Sound t ((bc.rewrite t.hash [] []).writeHeadBlock t.hash bc.currentBlock)
      ∧ (NoneAbove bc
        → (NoneAbove ((bc.rewrite t.hash [] []).writeHeadBlock t.hash bc.currentBlock)
          ↔ ¬Strands t bc bc.currentBlock)) := by
  have canonical : (bc.rewrite t.hash [] []).canonical
      = deleteAbove bc.canonical (bc.currentBlock.number + 1) := by
    rw [rewrite_eq]
    rfl
  have marked : MarkedUp t (bc.rewrite t.hash [] []).canonical bc.currentBlock := by
    rw [canonical]
    exact sound.marked.deleteAbove sound.nonzero (Nat.lt_succ_self _)
  refine ⟨?_, ?_⟩
  · refine
      {
        holds := sound.holds.of_database rfl rfl
        current := sound.current
        nonzero := ?_
        marked := ?_
        looked := ?_
      }
    · refine Nonzero.insert ?_ _ sound.member.key_ne_zero
      rw [canonical]
      exact deleteAbove_nonzero sound.nonzero _
    · unfold MarkedUp
      rw [index_writeHeadBlock, ← marked _ (.refl _), Function.update_eq_self]
      exact marked
    · have same : ((bc.rewrite t.hash [] []).writeHeadBlock t.hash bc.currentBlock).lookup
          = bc.lookup := by
        funext tx
        rw [writeHeadBlock_lookup, rewrite_lookup_nil rfl]
        split
        · rename_i inside
          have positive := sound.member.number_ne_zero inside
          exact ((sound.looked tx _).mpr ⟨_, .refl _, positive, rfl, inside⟩).symm
        · rfl
      rw [same]
      exact sound.looked
  · intro none
    rw [noneAbove_writeHead, canonical]
    refine ⟨fun _ strands => Nat.lt_irrefl _ strands.1, fun _ n above => ?_⟩
    rw [deleteAbove_lookup sound.nonzero]
    split
    · rfl
    · exact none n above

/-- The switch to a stored block that is not below the current one. -/
theorem setHead_ok (stored : Stored t bc b)
    (notBelow : Ancestor t.parentOf bc.currentBlock b → b = bc.currentBlock)
    : ∃ bc', bc.setHead t.hash b = .ok bc' ∧ Sound t bc' ∧ bc'.currentBlock = b
      ∧ (NoneAbove bc → (NoneAbove bc' ↔ ¬Strands t bc b)) := by
  have member := sound.holds.member stored
  unfold BlockChain.setHead
  split
  · rename_i apart
    obtain ⟨oldChain, newChain, common, found, forked⟩ :=
      branches_ok sound.holds sound.current stored
    refine ⟨(bc.rewrite t.hash oldChain newChain).writeHeadBlock t.hash b, ?_, ?_⟩
    · rw [BlockChain.reorg, found]
    · rcases forked with ⟨oldPath, newPath, oldApart, newApart⟩
      cases newPath with
      | nil =>
        -- The block is an ancestor of the current one, so it is the current one.
        have same := notBelow oldPath.ancestor
        subst same
        have length := oldPath.height_eq graded
        have nothing : oldChain = [] := List.length_eq_zero_iff.mp (by omega)
        subst nothing
        obtain ⟨soundAfter, above⟩ := rewrite_self sound
        exact ⟨soundAfter, rfl, above⟩
      | @cons _ p _ rest link path =>
        have forked : Forked t bc.currentBlock b common oldChain (b :: rest) :=
          ⟨oldPath, .cons link path, oldApart, newApart⟩
        have database : (writeAll t bc rest).blocks = bc.blocks ∧ (writeAll t bc rest).td = bc.td :=
          writeAll_database rest
        have holds : Holds t (bc.rewrite t.hash oldChain (b :: rest)) := by
          rw [rewrite_eq]
          exact sound.holds.of_database database.1 database.2
        have storedAfter : Stored t (bc.rewrite t.hash oldChain (b :: rest)) b := by
          rw [rewrite_eq]
          exact (congrFun database.1 _).trans stored
        have nonzero : Nonzero (bc.rewrite t.hash oldChain (b :: rest)).canonical := by
          rw [rewrite_eq]
          exact deleteAbove_nonzero (writeAll_nonzero sound member forked) _
        have marked := rewrite_marked sound member forked path
        have looked := sound.looked.rewrite member sound.member forked rfl
        refine ⟨.writeHead holds storedAfter nonzero link marked looked, rfl, ?_⟩
        intro none
        rw [noneAbove_writeHead]
        constructor
        · rintro empty ⟨lower, p', link', ancestor⟩
          rw [link] at link'
          cases link'
          rcases (rewrite_above sound member forked path link none lower).mp
            (empty _ lower) with long | higher
          · rcases path with _ | ⟨further, _⟩
            · exact long rfl
            · exact newApart p (.tail _ List.mem_cons_self) ancestor
          · exact Nat.lt_irrefl _ higher
        · intro fine n above
          refine (rewrite_above sound member forked path link none above).mpr ?_
          by_contra neither
          obtain ⟨short, low⟩ := not_or.mp neither
          cases path with
          | nil => exact fine ⟨by omega, _, link, oldPath.ancestor⟩
          | cons => exact short (List.cons_ne_nil _ _)
  · rename_i same
    have keyEq : b.parentHash = t.key bc.currentBlock := not_not.mp same
    have positive : b.number ≠ 0 := by
      intro zero
      have orphan := t.genesis_parent
      rw [← member.eq_genesis zero, keyEq, sound.member] at orphan
      cases orphan
    obtain ⟨p, link⟩ := member.exists_parent positive
    have parentEq : p = bc.currentBlock :=
      (Member.of_parentOf link).key_inj sound.member
        ((key_parent link).trans keyEq)
    rw [parentEq] at link
    obtain ⟨soundAfter, above⟩ := extend_ok sound stored link
    exact ⟨_, rfl, soundAfter, rfl, above⟩

end GoBinacoin.Chain
