import GoBinacoin.Chain.HeaderChain
import GoBinacoin.Lib.KeyedTree

/-! What an import of headers does to the database and to the markers: a batch with a new header
leaves the markers of its last header, a batch of known headers can move the head without them.
-/

namespace GoBinacoin.Chain

open Types (Header)
open Ancestry

/-- The headers that can occur, by their hashes: each but the genesis has a parent one number below
it and a positive difficulty.
-/
structure HeaderTree where
  hash : Header → Hash
  find : Hash → Option Header
  genesis : Header
  find_hash : ∀ {h header}, find h = some header → hash header = h
  find_genesis : find (hash genesis) = some genesis
  genesis_number : genesis.number = 0
  genesis_parent : find genesis.parentHash = none
  zero : find 0 = none
  bottom : ∀ {h header}, find h = some header → header.number = 0 → header = genesis
  parent : ∀ {h header}, find h = some header → header.number ≠ 0
    → ∃ p, find header.parentHash = some p ∧ header.number = p.number + 1
  difficulty : ∀ {h header}, find h = some header → header.number ≠ 0 → 0 < header.difficulty

def HeaderTree.keyed (t : HeaderTree) : KeyedTree Header Hash where
  key := t.hash
  parentKey := Header.parentHash
  height := Header.number
  find := t.find
  root := t.genesis
  find_key := t.find_hash
  find_root := t.find_genesis
  root_height := t.genesis_number
  root_parent := t.genesis_parent
  bottom := t.bottom
  parent := t.parent

/-- The parent in the tree. -/
abbrev HeaderTree.parentOf (t : HeaderTree) : Header → Option Header := t.keyed.parentOf

/-- A header is in a database, under its hash and number. -/
def StoredIn (t : HeaderTree) (headers : GoMap (Hash × Nat) Header) (header : Header) : Prop :=
  headers (t.hash header, header.number) = some header

/-- The headers of a batch are in the tree, and each is the parent of the next. -/
structure Contiguous (t : HeaderTree) (batch : List Header) : Prop where
  members : ∀ header ∈ batch, t.keyed.Member header
  linked : batch.IsChain fun p header => t.parentOf header = some p

variable {t : HeaderTree} {hc : HeaderChain} {s : HeaderImport} {p header : Header}

theorem HeaderTree.graded : Graded t.parentOf Header.number := KeyedTree.graded (t := t.keyed)

theorem HeaderTree.hash_parent (link : t.parentOf header = some p)
    : header.parentHash = t.hash p ∧ header.number - 1 = p.number := by
  have key : t.hash p = header.parentHash := KeyedTree.key_parent (t := t.keyed) link
  have next := graded link
  exact ⟨key.symm, by omega⟩

theorem HeaderTree.hash_ne_zero (member : t.keyed.Member header) : t.hash header ≠ 0 := by
  intro same
  have found : t.find (t.hash header) = some header := member
  rw [same, t.zero] at found
  cases found

/-- The stored headers are a part of the tree, with their total difficulties. -/
def HeldIn (t : HeaderTree) (headers : GoMap (Hash × Nat) Header) (td : GoMap (Hash × Nat) Nat)
    : Prop :=
  Totals t.keyed Header.difficulty headers td

/-- The loop is at a header, after some known and some new ones. -/
structure Progress (t : HeaderTree) (hc : HeaderChain) (s : HeaderImport) (p : Header)
    (known new : List Header)
    : Prop where
  held : HeldIn t s.headers s.td
  stored : StoredIn t s.headers p
  total : s.td (t.hash p, p.number) = some s.newTD
  lastHash : s.lastHash = t.hash p
  lastNumber : s.lastNumber = p.number
  lastHeader : s.lastHeader = (known ++ new).getLast?
  parentKnown : s.parentKnown = decide (new = [])
  old : StoredIn t hc.headers p ↔ new = []
  knowns : ∀ header ∈ known, StoredIn t hc.headers header
  news : ∀ header ∈ new, ¬StoredIn t hc.headers header
  inserted : s.inserted = new.map fun header => (header.number, t.hash header)
  firstInserted : s.firstInserted = if new = [] then none else some known.length
  kept : ∀ header, StoredIn t hc.headers header → StoredIn t s.headers header
    ∧ s.td (t.hash header, header.number) = hc.td (t.hash header, header.number)
  origin : ∀ header, StoredIn t s.headers header
    → StoredIn t hc.headers header ∨ header ∈ known ++ new

theorem hasHeader_iff (held : HeldIn t hc.headers hc.td) (member : t.keyed.Member header)
    : hc.hasHeader (t.hash header) header.number = true ↔ StoredIn t hc.headers header := by
  unfold HeaderChain.hasHeader StoredIn
  rcases found : hc.headers (t.hash header, header.number) with _ | other
  · simp
  · obtain ⟨place, memberOther⟩ := held.placed found
    have same : header = other := member.key_inj memberOther (Prod.mk.inj place).1
    simp [same]

variable {known new : List Header}

/-- One round of the loop: the header joins the known ones, or the new ones. -/
theorem importHeader_ok (held : HeldIn t hc.headers hc.td)
    (progress : Progress t hc s p known new) (member : t.keyed.Member header)
    (link : t.parentOf header = some p)
    : ∃ known' new', known' ++ new' = known ++ new ++ [header]
      ∧ Progress t hc
        (hc.importHeader t.hash s (known ++ new).length header (t.hash header)) header
        known' new' := by
  have step : hc.importHeader t.hash s (known ++ new).length header (t.hash header)
      = if decide (new = []) && hc.hasHeader (t.hash header) header.number then
          { s with
            newTD := s.newTD + header.difficulty
            parentKnown := true
            lastHeader := some header
            lastHash := t.hash header
            lastNumber := header.number }
        else
          { s with
            td := s.td.set (t.hash header, header.number) (s.newTD + header.difficulty)
            headers := s.headers.set (t.hash header, header.number) header
            inserted := s.inserted ++ [(header.number, t.hash header)]
            firstInserted := s.firstInserted <|> some (known ++ new).length
            newTD := s.newTD + header.difficulty
            parentKnown := false
            lastHeader := some header
            lastHash := t.hash header
            lastNumber := header.number } := by
    unfold HeaderChain.importHeader
    rw [progress.parentKnown]
    dsimp only
    split
    · rename_i yes
      rw [yes]
    · rename_i no
      rw [Bool.not_eq_true] at no
      rw [no]
  rw [step]
  by_cases present : StoredIn t hc.headers header
  · have storedParent : StoredIn t hc.headers p := held.parent present link
    have none := progress.old.mp storedParent
    subst none
    rw [if_pos (by simpa using (hasHeader_iff held member).mpr present)]
    obtain ⟨here, sameTd⟩ := progress.kept header present
    have total : s.td (t.hash header, header.number) = some (s.newTD + header.difficulty) := by
      obtain ⟨n, found⟩ := progress.held.weighed here
      have sum : n = header.difficulty + s.newTD := progress.held.sum here link found progress.total
      refine found.trans (congrArg some ?_)
      omega
    refine ⟨known ++ [header], [], by simp, ?_⟩
    exact
      { held := progress.held
        stored := here
        total := total
        lastHash := rfl
        lastNumber := rfl
        lastHeader := by simp
        parentKnown := rfl
        old := by simpa using present
        knowns := by
          intro other mem
          rcases List.mem_append.mp mem with earlier | here
          · exact progress.knowns other earlier
          · rw [List.mem_singleton.mp here]
            exact present
        news := fun other mem => nomatch mem
        inserted := progress.inserted
        firstInserted := progress.firstInserted
        kept := progress.kept
        origin := by
          intro other stored
          rcases progress.origin other stored with before | mem
          · exact .inl before
          · refine .inr ?_
            simp only [List.append_nil, List.mem_append] at mem ⊢
            exact .inl mem }
  · have absent : ¬(decide (new = []) && hc.hasHeader (t.hash header) header.number) = true := by
      intro both
      exact present ((hasHeader_iff held member).mp (Bool.and_eq_true_iff.mp both).2)
    rw [if_neg absent]
    have written := progress.held.write member link progress.stored progress.total
    rw [Nat.add_comm s.newTD]
    refine ⟨known, new ++ [header], by simp, ?_⟩
    have apart {other : Header} (ne : other ≠ header) (memberOther : t.keyed.Member other)
        : (t.hash other, other.number) ≠ (t.hash header, header.number) :=
      fun same => ne (memberOther.key_inj member (Prod.mk.inj same).1)
    exact
      { held := written
        stored := GoMap.set_self ..
        total := GoMap.set_self ..
        lastHash := rfl
        lastNumber := rfl
        lastHeader := by simp
        parentKnown := by simp
        old := by simpa using present
        knowns := progress.knowns
        news := by
          intro other mem
          rcases List.mem_append.mp mem with earlier | here
          · exact progress.news other earlier
          · rw [List.mem_singleton.mp here]
            exact present
        inserted := by simp [progress.inserted]
        firstInserted := by
          dsimp only
          rw [progress.firstInserted]
          by_cases first : new = []
          · simp [first]
          · simp [first]
        kept := by
          intro other stored
          have ne : other ≠ header := by
            rintro rfl
            exact present stored
          obtain ⟨here, sameTd⟩ := progress.kept other stored
          have away := apart ne (progress.held.member here)
          exact ⟨(GoMap.set_of_ne _ _ away).trans here, (GoMap.set_of_ne _ _ away).trans sameTd⟩
        origin := by
          intro other stored
          rcases GoMap.of_set stored with ⟨-, rfl⟩ | before
          · exact .inr (by simp)
          · rcases progress.origin other before with old | mem
            · exact .inl old
            · refine .inr ?_
              rw [← List.append_assoc]
              exact List.mem_append_left _ mem }

theorem importHeaders_cons {rest : List Header} {i : Nat}
    (linked : (header :: rest).IsChain fun p header => t.parentOf header = some p)
    : hc.importHeaders t.hash i (header :: rest) s
      = hc.importHeaders t.hash (i + 1) rest
        (hc.importHeader t.hash s i header (t.hash header)) := by
  cases rest with
  | nil => rfl
  | cons next rest =>
    have named := (HeaderTree.hash_parent (List.isChain_cons_cons.mp linked).1).1
    rw [← named]
    rfl

/-- The header that a batch on top of `p` ends with. -/
abbrev tip (p : Header) (batch : List Header) : Header :=
  (p :: batch).getLast (List.cons_ne_nil _ _)

/-- The whole loop, by induction on the batch. -/
theorem importHeaders_ok (held : HeldIn t hc.headers hc.td)
    (progress : Progress t hc s p known new) (batch : List Header)
    (members : ∀ header ∈ batch, t.keyed.Member header)
    (linked : (p :: batch).IsChain fun p header => t.parentOf header = some p)
    : ∃ known' new', known' ++ new' = known ++ new ++ batch
      ∧ Progress t hc (hc.importHeaders t.hash (known ++ new).length batch s)
        (tip p batch) known' new' := by
  induction batch generalizing p s known new with
  | nil => exact ⟨known, new, by simp, progress⟩
  | cons header rest ih =>
    have first := members header List.mem_cons_self
    obtain ⟨link, linkedRest⟩ := List.isChain_cons_cons.mp linked
    obtain ⟨known', new', whole, next⟩ := importHeader_ok held progress first link
    have length : (known ++ new).length + 1 = (known' ++ new').length := by
      rw [whole]
      simp [Nat.add_assoc]
    obtain ⟨known'', new'', whole', done⟩ :=
      ih next (fun other mem => members other (.tail _ mem)) linkedRest
    refine ⟨known'', new'', ?_, ?_⟩
    · rw [whole', whole]
      simp
    · rw [importHeaders_cons linkedRest, length]
      exact done

end GoBinacoin.Chain
