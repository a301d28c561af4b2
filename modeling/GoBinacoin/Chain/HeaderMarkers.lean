import GoBinacoin.Chain.HeaderImports

/-! Runs of header imports, and the markers they leave behind. -/

namespace GoBinacoin.Chain

open Types (Header)
open Ancestry

variable {t : HeaderTree} {hc : HeaderChain} {s : HeaderImport} {p header head : Header}
  {batch : List Header}

/-! Canonical hashes. -/

/-- The canonical hashes up to a header are those of its ancestors. -/
def MarkedTo (t : HeaderTree) (canonical : Canonical) (head : Header) : Prop :=
  Marked t.parentOf Header.number t.hash (index canonical) head

/-- The canonical hashes are those of the ancestors of a header, and no others. -/
structure Indexed (t : HeaderTree) (canonical : Canonical) (head : Header) : Prop where
  member : t.keyed.Member head
  nonzero : Nonzero canonical
  marked : MarkedTo t canonical head
  noneAbove : ∀ n, head.number < n → index canonical n = none

variable {canonical : Canonical}

variable (indexed : Indexed t canonical head)
include indexed

theorem Indexed.index_ne_none {n : Nat} (le : n ≤ head.number) : index canonical n ≠ none := by
  obtain ⟨a, above, found⟩ := indexed.member.exists_ancestor le
  have entry : index canonical a.number = some (t.hash a) := indexed.marked a above
  rw [show a.number = n from found] at entry
  rw [entry]
  exact nofun

/-- A header whose canonical hash is its own is an ancestor of the head, so its ancestors are
marked.
-/
theorem Indexed.marked_of_read (member : t.keyed.Member header)
    (read : readCanonicalHash canonical header.number = t.hash header)
    : MarkedTo t canonical header := by
  by_cases le : header.number ≤ head.number
  · obtain ⟨a, above, level⟩ := indexed.member.exists_ancestor le
    have entry : index canonical a.number = some (t.hash a) := indexed.marked a above
    rw [show a.number = header.number from level] at entry
    rw [readCanonicalHash, entry] at read
    rw [← (indexed.member.ancestor above).key_inj member read]
    exact indexed.marked.ancestor above
  · have missing := indexed.noneAbove header.number (by omega)
    rw [readCanonicalHash, missing] at read
    exact absurd read.symm (HeaderTree.hash_ne_zero member)

theorem Indexed.read_of_ancestor (above : Ancestor t.parentOf head header)
    : readCanonicalHash canonical header.number = t.hash header := by
  rw [readCanonicalHash, indexed.marked header above]
  rfl

theorem Indexed.deleteAbove {start n : Nat} (above : start ≤ n)
    : index (deleteAbove canonical start) n = none :=
  deleteAbove_contiguous indexed.nonzero head.number (fun _ le => indexed.index_ne_none le)
    indexed.noneAbove above

/-- Deleting what is above the head leaves it indexed. -/
theorem indexed_deleteAbove : Indexed t (deleteAbove canonical (head.number + 1)) head := by
  refine ⟨indexed.member, deleteAbove_nonzero indexed.nonzero _, ?_, fun n above => ?_⟩
  · exact indexed.marked.congr HeaderTree.graded
      fun n le => deleteAbove_below indexed.nonzero (by omega)
  · exact indexed.deleteAbove above

-- The batch agrees with the database up to the header at which the loop is, and what is above it
-- is not touched any more.
omit indexed

/-- The backwards loop ends with the ancestors of its first header marked, and touches nothing above
it.
-/
theorem markBackwards_ok (hc : HeaderChain) {fuel : Nat} {markers : Canonical}
    (held : HeldIn t hc.headers hc.td) (indexed : Indexed t hc.canonical head)
    (stored : StoredIn t hc.headers p) (enough : p.number < fuel) (nonzero : Nonzero markers)
    (agree : ∀ n ≤ p.number, index markers n = index hc.canonical n)
    : ∃ marked, hc.markBackwards fuel (t.hash p) p.number (hc.getHeader (t.hash p) p.number) markers
        = .ok marked
      ∧ MarkedTo t marked p ∧ Nonzero marked
      ∧ ∀ n, p.number < n → index marked n = index markers n := by
  induction fuel generalizing p markers with
  | zero => omega
  | succ fuel ih =>
    have member : t.keyed.Member p := held.member stored
    unfold HeaderChain.markBackwards
    split
    · rename_i read
      have marked := indexed.marked_of_read member read
      exact ⟨markers, rfl, marked.congr HeaderTree.graded agree, nonzero, fun _ _ => rfl⟩
    · rename_i stale
      have positive : p.number ≠ 0 := by
        intro zero
        obtain ⟨a, above, level⟩ := indexed.member.exists_ancestor (Nat.zero_le _)
        have bottom : a = p :=
          (t.bottom (indexed.member.ancestor above) level).trans (t.bottom member zero).symm
        rw [bottom] at above
        exact stale (indexed.read_of_ancestor above)
      obtain ⟨q, link⟩ : ∃ q, t.parentOf p = some q := member.exists_parent positive
      obtain ⟨parentHash, parentNumber⟩ := HeaderTree.hash_parent link
      have next := HeaderTree.graded link
      have found : hc.getHeader (t.hash p) p.number = some p := stored
      have below : ∀ n ≤ q.number,
          index (markers.insert p.number (t.hash p)) n = index hc.canonical n := by
        intro n le
        rw [index_insert, Function.update_of_ne (by omega)]
        exact agree n (by omega)
      obtain ⟨marked, done, upTo, nonzero', rest⟩ :=
        ih (held.parent stored link) (by omega)
          (nonzero.insert _ (HeaderTree.hash_ne_zero member)) below
      refine ⟨marked, ?_, ?_, nonzero', ?_⟩
      · rw [found]
        dsimp only
        rw [parentHash, parentNumber]
        exact done
      · intro a above
        rcases ancestor_iff.mp above with rfl | ⟨q', link', above'⟩
        · rw [rest _ (by omega), index_insert, Function.update_self]
        · rw [link] at link'
          cases link'
          exact upTo a above'
      · intro n higher
        rw [rest n (by omega), index_insert, Function.update_of_ne (by omega)]

/-- The entry of a header in the canonical index. -/
def entry (t : HeaderTree) (header : Header) : Nat × Hash := (header.number, t.hash header)

variable (list : List Header) (m : Markers)

/-- Writing the entries of headers updates the index from the first to the last. -/
theorem mark_index
    : index ((list.map (entry t)).foldl Markers.mark m).canonical
      = list.reverse.foldr
        (fun header (marks : Nat → Option Hash) =>
          Function.update marks header.number (some (t.hash header)))
        (index m.canonical) := by
  rw [List.foldr_reverse]
  induction list generalizing m with
  | nil => rfl
  | cons header list ih =>
    have first : index (m.mark (entry t header)).canonical
        = Function.update (index m.canonical) header.number (some (t.hash header)) :=
      index_insert _ _ _
    rw [List.map_cons, List.foldl_cons, List.foldl_cons, ih, first]

theorem mark_nonzero
    (members : ∀ header ∈ list, t.keyed.Member header) (nonzero : Nonzero m.canonical)
    : Nonzero ((list.map (entry t)).foldl Markers.mark m).canonical := by
  induction list generalizing m with
  | nil => exact nonzero
  | cons header list ih =>
    refine ih _ (fun other mem => members other (.tail _ mem)) ?_
    exact nonzero.insert _ (HeaderTree.hash_ne_zero (members header List.mem_cons_self))

/-- The last header that is marked is the head. -/
theorem mark_headHeaderHash
    : ((list.map (entry t)).foldl Markers.mark m).headHeaderHash
      = (list.getLast?.map t.hash).getD m.headHeaderHash := by
  induction list generalizing m with
  | nil => rfl
  | cons header list ih =>
    rw [List.map_cons, List.foldl_cons, ih]
    cases list with
    | nil => rfl
    | cons next rest => simp [List.getLast?_cons]

/-- On top of a marked header, the entries of a batch mark its last header. -/
theorem mark_ok {m : Markers} (batch : List Header) (nonempty : batch ≠ [])
    (members : ∀ header ∈ batch, t.keyed.Member header)
    (linked : (p :: batch).IsChain fun p header => t.parentOf header = some p)
    (marked : MarkedTo t m.canonical p) (nonzero : Nonzero m.canonical)
    (above : ∀ n, (tip p batch).number < n → index m.canonical n = none)
    : Indexed t ((batch.map (entry t)).foldl Markers.mark m).canonical (tip p batch)
      ∧ ((batch.map (entry t)).foldl Markers.mark m).headHeaderHash
        = t.hash (tip p batch) := by
  have path : Path t.parentOf (tip p batch) batch.reverse p := Path.of_isChain linked
  have last : tip p batch = batch.getLast nonempty := List.getLast_cons nonempty
  refine ⟨?_, ?_⟩
  · refine ⟨?_, mark_nonzero batch m members nonzero, ?_, ?_⟩
    · rw [last]
      exact members _ (List.getLast_mem nonempty)
    · unfold MarkedTo
      rw [mark_index]
      exact Marked.writes HeaderTree.graded path marked
    · intro n higher
      rw [mark_index, writes_apply_of_notMem, above n higher]
      intro header mem level
      have lower := ((path.mem_iff HeaderTree.graded).mp mem).1.height_le HeaderTree.graded
      omega
  · rw [mark_headHeaderHash, List.getLast?_eq_getLast_of_ne_nil nonempty, last]
    rfl

/-! One import. -/

/-- The database holds a part of the tree, and the markers are those of the current header, which is
as heavy as any other.
-/
structure HeaderSound (t : HeaderTree) (hc : HeaderChain) : Prop where
  held : HeldIn t hc.headers hc.td
  current : StoredIn t hc.headers hc.currentHeader
  currentHash : hc.currentHeaderHash = t.hash hc.currentHeader
  headHash : hc.headHeaderHash = t.hash hc.currentHeader
  indexed : Indexed t hc.canonical hc.currentHeader
  heaviest : ∀ {header n m}, StoredIn t hc.headers header
    → hc.td (t.hash header, header.number) = some n
    → hc.td (t.hash hc.currentHeader, hc.currentHeader.number) = some m
    → n ≤ m

/-- A header draws with the current one: its total difficulty is the same, and its number is
smaller, or equal and the random number decides for it.
-/
structure Draws (t : HeaderTree) (hc : HeaderChain) (last : Header) (coin : Bool) : Prop where
  other : last ≠ hc.currentHeader
  total
    : hc.td (t.hash last, last.number) = hc.td (t.hash hc.currentHeader, hc.currentHeader.number)
  number : last.number < hc.currentHeader.number ∨ last.number = hc.currentHeader.number ∧ coin

/-- A call that is not aborted gets a batch with no new header and without the genesis header, and
its last header draws with the current one.
-/
structure Unmarked (t : HeaderTree) (hc : HeaderChain) (batch : List Header)
    (stopped interrupted coin : Bool)
    : Prop where
  runs : stopped = false ∧ interrupted = false
  known : ∀ header ∈ batch, header.number ≠ 0 ∧ StoredIn t hc.headers header
  draws : ∃ last, batch.getLast? = some last ∧ Draws t hc last coin

/-- The markers are right unless a batch without a new header moves the head. -/
structure Outcome (t : HeaderTree) (hc : HeaderChain) (batch : List Header)
    (stopped interrupted coin : Bool) (hc' : HeaderChain)
    : Prop where
  sound : ¬Unmarked t hc batch stopped interrupted coin → HeaderSound t hc'
  stale
    : Unmarked t hc batch stopped interrupted coin
      → hc'.headHeaderHash ≠ t.hash hc'.currentHeader

theorem Outcome.of_sound {stopped interrupted coin : Bool} {hc' : HeaderChain}
    (sound : HeaderSound t hc') (marked : ¬Unmarked t hc batch stopped interrupted coin)
    : Outcome t hc batch stopped interrupted coin hc' :=
  ⟨fun _ => sound, fun unmarked => absurd unmarked marked⟩

theorem reorgs_iff {localTD : Nat} {coin : Bool}
    : hc.reorgs s localTD coin = true
      ↔ localTD < s.newTD
        ∨ s.newTD = localTD
          ∧ (s.lastNumber < hc.currentHeader.number
            ∨ s.lastNumber = hc.currentHeader.number ∧ coin) := by
  unfold HeaderChain.reorgs
  split_ifs <;> grind

/-- Without a new header the last one was stored before, and is not heavier than the old head. It
becomes the head only by a draw.
-/
theorem Progress.draws_iff {known : List Header} {last : Header} {localTD : Nat} {coin : Bool}
    (progress : Progress t hc s last known []) (sound : HeaderSound t hc)
    (current : hc.td (t.hash hc.currentHeader, hc.currentHeader.number) = some localTD)
    (other : last ≠ hc.currentHeader)
    : Draws t hc last coin
      ↔ { hc with headers := s.headers, td := s.td }.reorgs s localTD coin = true := by
  have old := progress.old.mpr rfl
  have total : hc.td (t.hash last, last.number) = some s.newTD :=
    (progress.kept _ old).2.symm.trans progress.total
  have lighter := sound.heaviest old total current
  rw [reorgs_iff, progress.lastNumber]
  constructor
  · intro draws
    have same := total.symm.trans (draws.total.trans current)
    exact .inr ⟨Option.some.inj same, draws.number⟩
  · rintro (more | ⟨same, number⟩)
    · omega
    · exact ⟨other, total.trans ((congrArg some same).trans current.symm), number⟩

section

variable {known new : List Header} (sound : HeaderSound t hc)
  (linked : (p :: batch).IsChain fun p header => t.parentOf header = some p)
  (progress : Progress t hc s (tip p batch) known new)
  (whole : known ++ new = batch)

include linked progress

variable {n localTD : Nat} {first : Header} {rest : List Header}

/-- Every header of the batch is at most as heavy as the last one. -/
theorem total_le_newTD (mem : header ∈ batch) (total : s.td (t.hash header, header.number) = some n)
    : n ≤ s.newTD := by
  have above : Ancestor t.parentOf (tip p batch) header :=
    (((Path.of_isChain linked).mem_iff HeaderTree.graded).mp (List.mem_reverse.mpr mem)).1
  exact (progress.held.total_le t.difficulty progress.stored above progress.total total).1

include sound whole

/-- No header is heavier than both the old head and the last header of the batch. -/
theorem stored_le (stored : StoredIn t s.headers header)
    (total : s.td (t.hash header, header.number) = some n)
    (current : hc.td (t.hash hc.currentHeader, hc.currentHeader.number) = some localTD)
    : n ≤ max localTD s.newTD := by
  rcases progress.origin header stored with old | mem
  · rw [(progress.kept header old).2] at total
    exact le_max_of_le_left (sound.heaviest old total current)
  · rw [whole] at mem
    exact le_max_of_le_right (total_le_newTD linked progress mem total)

/-- Headers that are no heavier than the head are stored without being marked. -/
theorem committed_sound (lighter : s.newTD ≤ localTD)
    (current : hc.td (t.hash hc.currentHeader, hc.currentHeader.number) = some localTD)
    : HeaderSound t { hc with headers := s.headers, td := s.td } := by
  obtain ⟨storedCurrent, sameTd⟩ := progress.kept _ sound.current
  refine ⟨progress.held, storedCurrent, sound.currentHash, sound.headHash, sound.indexed, ?_⟩
  intro header n m stored total own
  have bound := stored_le sound linked progress whole stored total current
  have same : m = localTD := Option.some.inj (own.symm.trans (sameTd.trans current))
  omega

/-- The chain is sound when the last header of a batch that is heavy enough becomes the head. -/
theorem moved_sound {canonical : Canonical} (heavier : localTD ≤ s.newTD)
    (current : hc.td (t.hash hc.currentHeader, hc.currentHeader.number) = some localTD)
    (indexed : Indexed t canonical (tip p batch))
    : HeaderSound t
        { headers := s.headers
          td := s.td
          canonical := canonical
          headHeaderHash := t.hash (tip p batch)
          currentHeaderHash := t.hash (tip p batch)
          currentHeader := tip p batch } := by
  refine ⟨progress.held, progress.stored, rfl, rfl, indexed, ?_⟩
  intro header n m stored total own
  have bound := stored_le sound linked progress whole stored total current
  have same : m = s.newTD := Option.some.inj (own.symm.trans progress.total)
  omega

/-- A known header on top of the current one would be heavier than it. -/
theorem known_eq_nil (members : ∀ header ∈ batch, t.keyed.Member header)
    (top : p = hc.currentHeader)
    : known = [] := by
  rcases known with _ | ⟨first, rest⟩
  · rfl
  have stored := progress.knowns first List.mem_cons_self
  rw [← whole, List.cons_append] at linked members
  obtain ⟨link, -⟩ := List.isChain_cons_cons.mp linked
  rw [top] at link
  obtain ⟨n, total⟩ := sound.held.weighed stored
  obtain ⟨m, current⟩ := sound.held.weighed sound.current
  have sum : n = first.difficulty + m := sound.held.sum stored link total current
  have bound := sound.heaviest stored total current
  have next := HeaderTree.graded link
  have positive := t.difficulty (members first List.mem_cons_self) (by omega)
  omega

/-- With a new header the markers are those of the last one; without any, only stale entries go. -/
theorem writeMarkers_ok
    (members : ∀ header ∈ batch, t.keyed.Member header) (head : batch = first :: rest)
    (stored : StoredIn t hc.headers p)
    : ∃ markers, { hc with headers := s.headers, td := s.td }.writeMarkers t.hash first batch s
        = .ok markers
      ∧ (new ≠ [] → Indexed t markers.canonical (tip p batch)
        ∧ markers.headHeaderHash = t.hash (tip p batch))
      ∧ (new = [] → markers.headHeaderHash = hc.headHeaderHash
        ∧ (tip p batch = hc.currentHeader
          → Indexed t markers.canonical hc.currentHeader)) := by
  have nonempty : batch ≠ [] := by
    rw [head]
    exact List.cons_ne_nil _ _
  have firstLink : t.parentOf first = some p := by
    rw [head] at linked
    exact (List.isChain_cons_cons.mp linked).1
  obtain ⟨parentHash, parentNumber⟩ := HeaderTree.hash_parent firstLink
  have path : Path t.parentOf (tip p batch) batch.reverse p := Path.of_isChain linked
  have lastHigher : p.number < (tip p batch).number := by
    have height := path.height_eq HeaderTree.graded
    have positive : 0 < batch.reverse.length := by
      rw [List.length_reverse]
      exact List.length_pos_of_ne_nil nonempty
    omega
  have inserted : s.inserted = new.map (entry t) := progress.inserted
  unfold HeaderChain.writeMarkers
  dsimp only
  split
  · rename_i canon
    have top : p = hc.currentHeader := by
      refine (sound.held.member stored).key_inj (sound.held.member sound.current) ?_
      exact parentHash.symm.trans (canon.trans sound.currentHash)
    have none := known_eq_nil sound linked progress whole members top
    rw [none, List.nil_append] at whole
    refine ⟨_, rfl, ?_, ?_⟩
    · intro _
      rw [inserted, whole]
      refine mark_ok batch nonempty members linked ?_ sound.indexed.nonzero ?_
      · rw [top]
        exact sound.indexed.marked
      · intro n higher
        refine sound.indexed.noneAbove n ?_
        rw [← top]
        omega
    · intro empty
      exact absurd (whole.symm.trans empty) nonempty
  · have below : ∀ n ≤ p.number, index (deleteAbove hc.canonical (s.lastNumber + 1)) n
        = index hc.canonical n := by
      intro n le
      rw [progress.lastNumber]
      exact deleteAbove_below sound.indexed.nonzero (by omega)
    obtain ⟨batch', done, marked, nonzero, higher⟩ :=
      markBackwards_ok { hc with headers := s.headers, td := s.td } progress.held sound.indexed
        (progress.kept p stored).1 (Nat.lt_succ_self _)
        (deleteAbove_nonzero sound.indexed.nonzero (s.lastNumber + 1)) below
    rw [parentHash, parentNumber, done]
    refine ⟨_, rfl, ?_, ?_⟩
    · intro some
      have olderThenNew : (batch.take (s.firstInserted.getD 0)).map (entry t) ++ s.inserted
          = batch.map (entry t) := by
        rw [progress.firstInserted, if_neg some, inserted, Option.getD_some, ← whole,
          List.take_left, List.map_append]
      have cleared : ∀ n, (tip p batch).number < n
          → index batch' n = none := by
        intro n above
        rw [higher n (by omega)]
        refine sound.indexed.deleteAbove ?_
        rw [progress.lastNumber]
        omega
      have both := mark_ok (m := ⟨batch', hc.headHeaderHash⟩) batch nonempty members linked marked
        nonzero cleared
      rw [← olderThenNew, List.foldl_append] at both
      exact both
    · intro none
      have nothing : s.inserted = [] := by
        rw [inserted, none]
        rfl
      rw [progress.firstInserted, if_pos none, nothing]
      refine ⟨rfl, ?_⟩
      intro same
      -- The batch is on the canonical chain already, so no assignment is stale.
      have above : Ancestor t.parentOf hc.currentHeader p := by
        rw [← same]
        exact path.ancestor
      have read : readCanonicalHash hc.canonical p.number = t.hash p :=
        sound.indexed.read_of_ancestor above
      have unchanged : batch' = deleteAbove hc.canonical (s.lastNumber + 1) := by
        unfold HeaderChain.markBackwards at done
        rw [if_pos read] at done
        exact (Except.ok.inj done).symm
      change Indexed t batch' hc.currentHeader
      rw [unchanged, progress.lastNumber, same]
      exact indexed_deleteAbove sound.indexed

/-- The second half of an import, whether or not the last header becomes the head. -/
theorem chooseHead_ok (coin : Bool)
    (members : ∀ header ∈ batch, t.keyed.Member header) (head : batch = first :: rest)
    (stored : StoredIn t hc.headers p)
    : ∃ hc' result,
        { hc with headers := s.headers, td := s.td }.chooseHead t.hash first batch s coin
          = .ok (hc', result)
        ∧ Outcome t hc batch false false coin hc' := by
  obtain ⟨localTD, current⟩ := sound.held.weighed sound.current
  have lastHeader : s.lastHeader = some (tip p batch) := by
    rw [progress.lastHeader, whole, head, List.getLast?_eq_getLast_of_ne_nil (List.cons_ne_nil _ _)]
    rfl
  have found : s.td (hc.currentHeaderHash, hc.currentHeader.number) = some localTD := by
    rw [sound.currentHash]
    exact (progress.kept _ sound.current).2.trans current
  obtain ⟨markers, done, marked, unmarked⟩ :=
    writeMarkers_ok sound linked progress whole members head stored
  have last : batch.getLast? = some (tip p batch) := by
    rw [← lastHeader, progress.lastHeader, whole]
  have allKnown (unmarked : Unmarked t hc batch false false coin) : new = [] := by
    refine List.eq_nil_iff_forall_not_mem.mpr fun header mem => ?_
    refine progress.news header mem (unmarked.known header ?_).2
    rw [← whole]
    exact List.mem_append_right _ mem
  unfold HeaderChain.chooseHead
  dsimp only
  rw [found]
  dsimp only
  split
  · rename_i wins
    have heavier : localTD ≤ s.newTD := by
      rcases reorgs_iff.mp wins with more | ⟨same, -⟩ <;> omega
    rw [done, lastHeader, progress.lastHash]
    refine ⟨_, _, rfl, ?_⟩
    by_cases fresh : new = []
    · obtain ⟨sameHash, sameIndex⟩ := unmarked fresh
      refine ⟨?_, ?_⟩
      · intro allowed
        have same : tip p batch = hc.currentHeader := by
          by_contra apart
          refine allowed ⟨⟨rfl, rfl⟩, ?_, _, last,
            ((fresh ▸ progress).draws_iff sound current apart).mpr wins⟩
          intro header mem
          refine ⟨?_, ?_⟩
          · have higher := ((Path.of_isChain linked).mem_iff HeaderTree.graded).mp
              (List.mem_reverse.mpr mem)
            exact Nat.ne_zero_of_lt higher.2
          · rw [← whole, fresh, List.append_nil] at mem
            exact progress.knowns header mem
        have indexed := sameIndex same
        rw [← same] at indexed
        rw [sameHash, sound.headHash, ← same]
        exact moved_sound sound linked progress whole heavier current indexed
      · rintro ⟨-, -, header, isLast, drawn⟩ equal
        cases last.symm.trans isLast
        rw [sameHash, sound.headHash] at equal
        exact drawn.other ((progress.held.member progress.stored).key_inj
          (sound.held.member sound.current) equal.symm)
    · obtain ⟨indexed, headHash⟩ := marked fresh
      rw [headHash]
      refine .of_sound (moved_sound sound linked progress whole heavier current indexed) ?_
      exact fun unmarked => fresh (allKnown unmarked)
  · rename_i loses
    have lighter : s.newTD ≤ localTD := by
      by_contra heavier
      exact loses (reorgs_iff.mpr (.inl (by omega)))
    refine ⟨_, _, rfl, ?_⟩
    refine .of_sound (committed_sound sound linked progress whole lighter current) ?_
    intro unmarked
    obtain ⟨header, isLast, drawn⟩ := unmarked.draws
    cases last.symm.trans isLast
    have none := allKnown unmarked
    exact loses (((none ▸ progress).draws_iff sound current drawn.other).mp drawn)

end

/-- What a call does: it fails and changes nothing, or writes the batch. -/
theorem insertHeaderChain_cases (sound : HeaderSound t hc) (contiguous : Contiguous t batch)
    (stopped interrupted coin : Bool)
    : (∃ err, hc.insertHeaderChain t.hash batch stopped interrupted coin = (hc, .error err)
        ∧ (err = .aborted ∨ err = .unknownAncestor)
        ∧ ¬Unmarked t hc batch stopped interrupted coin)
      ∨ ∃ hc' status, hc.insertHeaderChain t.hash batch stopped interrupted coin
          = (hc', .ok status)
        ∧ Outcome t hc batch stopped interrupted coin hc' := by
  unfold HeaderChain.insertHeaderChain
  split
  · rename_i stop
    refine .inl ⟨_, rfl, .inl rfl, fun unmarked => ?_⟩
    exact Bool.false_ne_true (unmarked.runs.1.symm.trans stop)
  · rename_i start
    rw [Bool.not_eq_true] at start
    subst start
    unfold HeaderChain.writeHeaders
    rcases split : batch with _ | ⟨first, rest⟩
    · refine .inr ⟨hc, _, rfl, .of_sound sound ?_⟩
      rintro ⟨-, -, last, none, -⟩
      cases none
    rw [split] at contiguous
    have memberFirst := contiguous.members first List.mem_cons_self
    dsimp only
    rcases known : hc.td (first.parentHash, first.number - 1) with _ | ptd
    · refine .inl ⟨_, rfl, .inr rfl, fun unmarked => ?_⟩
      obtain ⟨positive, present⟩ := unmarked.known first List.mem_cons_self
      obtain ⟨p, link⟩ := memberFirst.exists_parent positive
      obtain ⟨n, total⟩ := sound.held.weighed (sound.held.parent present link)
      obtain ⟨parentHash, parentNumber⟩ := HeaderTree.hash_parent link
      rw [parentHash, parentNumber] at known
      cases known.symm.trans total
    obtain ⟨p, link, stored, total⟩ := sound.held.parent_of_total memberFirst known
    obtain ⟨parentHash, parentNumber⟩ := HeaderTree.hash_parent link
    have linked : (p :: first :: rest).IsChain fun p header => t.parentOf header = some p :=
      List.isChain_cons_cons.mpr ⟨link, contiguous.linked⟩
    have start : Progress t hc
        { lastNumber := first.number - 1
          lastHash := first.parentHash
          newTD := ptd
          headers := hc.headers
          td := hc.td } p [] [] :=
      { held := sound.held
        stored := stored
        total := total
        lastHash := parentHash
        lastNumber := parentNumber
        lastHeader := rfl
        parentKnown := rfl
        old := ⟨fun _ => rfl, fun _ => stored⟩
        knowns := fun _ mem => nomatch mem
        news := fun _ mem => nomatch mem
        inserted := rfl
        firstInserted := rfl
        kept := fun _ stored => ⟨stored, rfl⟩
        origin := fun _ stored => .inl stored }
    obtain ⟨known', new', whole, progress⟩ :=
      importHeaders_ok sound.held start (first :: rest) contiguous.members linked
    rcases interrupted with _ | _
    · obtain ⟨hc', result, done, outcome⟩ :=
        chooseHead_ok sound linked progress whole coin contiguous.members rfl stored
      refine .inr ⟨hc', result.status, ?_, outcome⟩
      rw [show ([] ++ [] : List Header).length = 0 from rfl] at done
      dsimp only
      rw [if_neg Bool.false_ne_true, done]
    · exact .inl ⟨_, rfl, .inl rfl, fun unmarked => nomatch unmarked.runs.2⟩

/-! Runs. -/

/-- A chain with nothing but the genesis header. -/
def genesisHeaderChain (t : HeaderTree) : HeaderChain where
  headers := GoMap.empty.set (t.hash t.genesis, 0) t.genesis
  td := GoMap.empty.set (t.hash t.genesis, 0) t.genesis.difficulty
  canonical := (∅ : Canonical).insert 0 (t.hash t.genesis)
  headHeaderHash := t.hash t.genesis
  currentHeaderHash := t.hash t.genesis
  currentHeader := t.genesis

/-- The chains that calls of `InsertHeaderChain` with contiguous batches lead to, where no batch
moves the head without a new header.
-/
inductive HeaderRun (t : HeaderTree) : HeaderChain → Prop where
  | start : HeaderRun t (genesisHeaderChain t)
  | step {hc : HeaderChain} {batch : List Header} {stopped interrupted coin : Bool}
    (run : HeaderRun t hc) (contiguous : Contiguous t batch)
    (marked : ¬Unmarked t hc batch stopped interrupted coin)
    : HeaderRun t (hc.insertHeaderChain t.hash batch stopped interrupted coin).1

/-- The markers and the total difficulties are right. -/
structure HeaderConsistent (t : HeaderTree) (hc : HeaderChain) : Prop where
  ancestors : ∀ n, n ≤ hc.currentHeader.number → ∃ a, Ancestor t.parentOf hc.currentHeader a
    ∧ a.number = n ∧ readCanonicalHash hc.canonical n = t.hash a
  above : ∀ n, hc.currentHeader.number < n → readCanonicalHash hc.canonical n = 0
  total : ∀ header p, StoredIn t hc.headers header → t.parentOf header = some p
    → ∃ ptd, hc.td (t.hash p, p.number) = some ptd
      ∧ hc.td (t.hash header, header.number) = some (ptd + header.difficulty)
  head : hc.headHeaderHash = t.hash hc.currentHeader

/-- Runs start from a sound chain. -/
theorem genesisHeaderChain_sound (t : HeaderTree) : HeaderSound t (genesisHeaderChain t) := by
  have number := t.genesis_number
  have marks : index (genesisHeaderChain t).canonical
      = Function.update (fun _ => none) 0 (some (t.hash t.genesis)) :=
    index_single 0 (t.hash t.genesis)
  have member : t.keyed.Member t.genesis := t.find_genesis
  refine
    {
      held := Totals.root t.keyed Header.difficulty
      current := ?_
      currentHash := rfl
      headHash := rfl
      indexed :=
        {
          member := member
          nonzero := Nonzero.empty.insert 0 (HeaderTree.hash_ne_zero member)
          marked := ?_
          noneAbove := ?_
        }
      heaviest := ?_
    }
  · change GoMap.set _ _ _ (t.hash t.genesis, t.genesis.number) = some t.genesis
    rw [number]
    exact GoMap.set_self ..
  · intro a above
    have same : a = t.genesis := (KeyedTree.ancestor_root (t := t.keyed)).mp above
    rw [same, marks, number, Function.update_self]
  · intro n above
    rw [marks, Function.update_of_ne (by omega)]
  · intro header n m stored total current
    rcases GoMap.of_set stored with ⟨-, same⟩ | absent
    · rw [same] at total
      exact Nat.le_of_eq (Option.some.inj (total.symm.trans current))
    · cases absent

/-- Soundness holds along every run, by induction on the calls. -/
theorem HeaderRun.sound (run : HeaderRun t hc) : HeaderSound t hc := by
  induction run with
  | start => exact genesisHeaderChain_sound t
  | step _ contiguous marked ih =>
    rcases insertHeaderChain_cases ih contiguous _ _ _ with
      ⟨err, failed, -⟩ | ⟨hc', status, done, outcome⟩
    · rw [failed]
      exact ih
    · rw [done]
      exact outcome.sound marked

/-- What soundness says of the markers that other code reads. -/
theorem HeaderSound.consistent (sound : HeaderSound t hc) : HeaderConsistent t hc := by
  refine
    {
      ancestors := ?_
      above := ?_
      total := ?_
      head := sound.headHash
    }
  · intro n le
    obtain ⟨a, above, found⟩ := sound.indexed.member.exists_ancestor le
    refine ⟨a, above, found, ?_⟩
    rw [← show a.number = n from found]
    exact sound.indexed.read_of_ancestor above
  · intro n above
    exact (readCanonicalHash_eq_zero sound.indexed.nonzero).mpr (sound.indexed.noneAbove n above)
  · intro header p stored link
    obtain ⟨ptd, parentTotal⟩ := sound.held.weighed (sound.held.parent stored link)
    obtain ⟨n, total⟩ := sound.held.weighed stored
    have sum : n = header.difficulty + ptd := sound.held.sum stored link total parentTotal
    refine ⟨ptd, parentTotal, total.trans (congrArg some ?_)⟩
    omega

/-- Two headers of one weight on the genesis header. -/
def sampleHeaders : List Header :=
  [{ root := 1, difficulty := 1 },
    { root := 2, parentHash := 1, number := 1, difficulty := 1 },
    { root := 3, parentHash := 1, number := 1, difficulty := 1 }]

def sampleHeaderTree : HeaderTree where
  hash header := header.root
  find h := sampleHeaders.find? fun header => header.root = h
  genesis := { root := 1, difficulty := 1 }
  find_hash {h header} found := by
    have same := List.find?_some found
    exact of_decide_eq_true same
  find_genesis := by decide +kernel
  genesis_number := rfl
  genesis_parent := by decide +kernel
  zero := by decide +kernel
  bottom found := by
    have all : ∀ header ∈ sampleHeaders, header.number = 0
        → header = { root := 1, difficulty := 1 } := by
      decide +kernel
    exact all _ (List.mem_of_find?_eq_some found)
  parent found positive := by
    have all : ∀ header ∈ sampleHeaders, header.number ≠ 0 → ∃ p ∈ sampleHeaders,
        (sampleHeaders.find? fun p => p.root = header.parentHash) = some p
        ∧ header.number = p.number + 1 := by
      decide +kernel
    obtain ⟨p, -, facts⟩ := all _ (List.mem_of_find?_eq_some found) positive
    exact ⟨p, facts⟩
  difficulty found := by
    have all : ∀ header ∈ sampleHeaders, header.number ≠ 0 → 0 < header.difficulty := by
      decide +kernel
    exact all _ (List.mem_of_find?_eq_some found)

/-- A header of its own is imported. -/
def sampleInsert (hc : HeaderChain) (root : Hash) (coin : Bool) : HeaderChain :=
  (hc.insertHeaderChain sampleHeaderTree.hash
    [{ root := root, parentHash := 1, number := 1, difficulty := 1 }] false false coin).1

/-- The first header becomes the head, then the second one loses the draw. -/
def sampleHeaderChain : HeaderChain :=
  sampleInsert (sampleInsert (genesisHeaderChain sampleHeaderTree) 2 false) 3 false

/-- A batch of one of the two headers can be imported. -/
theorem sampleHeader_contiguous {root : Hash} (listed : root = 2 ∨ root = 3)
    : Contiguous sampleHeaderTree
        [{ root := root, parentHash := 1, number := 1, difficulty := 1 }] := by
  refine ⟨?_, List.isChain_singleton _⟩
  intro header mem
  rw [List.mem_singleton.mp mem]
  rcases listed with rfl | rfl
  · rw [KeyedTree.Member]
    decide +kernel
  · rw [KeyedTree.Member]
    decide +kernel

/-- Neither import is of a known header. -/
theorem sampleHeaderChain_run
    : HeaderRun sampleHeaderTree sampleHeaderChain := by
  refine .step (.step .start (sampleHeader_contiguous (.inl rfl)) ?_)
    (sampleHeader_contiguous (.inr rfl)) ?_
  · rintro ⟨-, stored, -⟩
    have found := (stored _ (List.mem_singleton.mpr rfl)).2
    have missing : (genesisHeaderChain sampleHeaderTree).headers (2, 1) = none := by
      decide +kernel
    cases missing.symm.trans found
  · rintro ⟨-, stored, -⟩
    have found := (stored _ (List.mem_singleton.mpr rfl)).2
    have missing : (sampleInsert (genesisHeaderChain sampleHeaderTree) 2 false).headers (3, 1)
        = none := by
      decide +kernel
    cases missing.symm.trans found

/-- After calls none of which gets known headers alone with a last one that draws with the current
header, the header chain is consistent, and no call fails but for an interrupt or an unknown parent.
A call that does get such headers, and only such a call, leaves it inconsistent.
-/
theorem header_markers_consistent_iff (run : HeaderRun t hc)
    : HeaderConsistent t hc
      ∧ ∀ batch stopped interrupted coin, Contiguous t batch →
        (HeaderConsistent t (hc.insertHeaderChain t.hash batch stopped interrupted coin).1
          ↔ ¬Unmarked t hc batch stopped interrupted coin)
        ∧ ∀ err, (hc.insertHeaderChain t.hash batch stopped interrupted coin).2 = .error err
          → err = .aborted ∨ err = .unknownAncestor := by
  have sound := run.sound
  refine ⟨sound.consistent, ?_⟩
  intro batch stopped interrupted coin contiguous
  rcases insertHeaderChain_cases sound contiguous stopped interrupted coin with
    ⟨err, failed, cause, marked⟩ | ⟨hc', status, done, outcome⟩
  · rw [failed]
    refine ⟨⟨fun _ => marked, fun _ => sound.consistent⟩, ?_⟩
    · intro err' same
      rw [← Except.error.inj same]
      exact cause
  · rw [done]
    refine ⟨⟨?_, fun marked => (outcome.sound marked).consistent⟩, ?_⟩
    · intro consistent unmarked
      exact outcome.stale unmarked consistent.head
    · intro err absurdity
      cases absurdity

/-- The second header is imported again and loses the draw. -/
theorem header_markers_consistent_iff_sample
    : HeaderConsistent sampleHeaderTree (sampleInsert sampleHeaderChain 3 false) := by
  refine (((header_markers_consistent_iff sampleHeaderChain_run).2 _ false false false
    (sampleHeader_contiguous (.inr rfl))).1.mpr ?_)
  rintro ⟨-, -, last, isLast, -, -, smaller | ⟨-, wins⟩⟩
  · cases isLast
    revert smaller
    decide +kernel
  · cases wins

/-- The second header is imported again and wins the draw: it becomes the current header, and the
markers stay those of the first.
-/
theorem known_header_unmarked
    : (sampleInsert sampleHeaderChain 3 true).currentHeader.root = 3
      ∧ readCanonicalHash (sampleInsert sampleHeaderChain 3 true).canonical 1 = 2
      ∧ (sampleInsert sampleHeaderChain 3 true).headHeaderHash = 2
      ∧ ¬HeaderConsistent sampleHeaderTree (sampleInsert sampleHeaderChain 3 true) := by
  have current : (sampleInsert sampleHeaderChain 3 true).currentHeader.root = 3 := by
    decide +kernel
  have stale : (sampleInsert sampleHeaderChain 3 true).headHeaderHash = 2 := by
    decide +kernel
  refine ⟨current, by decide +kernel, stale, ?_⟩
  intro consistent
  have same : (sampleInsert sampleHeaderChain 3 true).headHeaderHash
      = (sampleInsert sampleHeaderChain 3 true).currentHeader.root := consistent.head
  rw [current, stale] at same
  exact absurd same (by decide)

end GoBinacoin.Chain
