import GoBinacoin.TrieSync.Process

/-! The scheduler for whole states: the account trie with the storage tries and the codes of the
contracts, and the order in which all of it becomes complete.
-/

namespace GoBinacoin.TrieSync

open MerkleTrie Rlp State Sync

/-- `Decode` of an account: its root and its code hash. Bytes behind the value are ignored. -/
def decodeAccount (leaf : Bytes) : Option (Hash × Bytes) :=
  match decodeInterface (2 * leaf.length + 2) (Stream.ofBytes leaf (uint64 leaf.length)) with
  | (.ok (.list [.str nonce, .str balance, .str root, .str codeHash]), _) =>
      if canonicalUint nonce && nonce.length ≤ 8 && canonicalUint balance && root.length = 32 then
        some (bytesToHash root, codeHash)
      else none
  | _ => none

/-- No account is shorter than a hash. -/
theorem decodeAccount_small {leaf : Bytes} (small : leaf.length < 32)
    : decodeAccount leaf = none := by
  unfold decodeAccount
  split
  · rename_i nonce balance root codeHash next decoded
    split
    · rename_i fields
      have width : root.length = 32 := by
        simp only [Bool.and_eq_true, decide_eq_true_eq] at fields
        exact fields.2
      have consumed := (outcomes _).item_ok (Stream.ofBytes_ready (by omega)) decoded
      have total := congrArg List.length consumed.input
      have outer := Item.tagsize_add (.list [.str nonce, .str balance, .str root, .str codeHash])
      have inner := Item.tagsize_add (.str root)
      simp only [Stream.ofBytes, List.length_append] at total
      simp only [Item.content, encodeAll, List.length_append, List.length_nil] at outer inner
      omega
    · rfl
  · rfl

/-- `onAccount` and `onSlot`. -/
inductive StateCallback where
  | account
  | slot
  deriving DecidableEq

inductive LeafError (Error : Type) where
  | onLeaf (err : Error)
  | decode

/-- The callbacks of `NewStateSync`, with the external watcher of leaves. -/
def stateCallbacks {Error : Type} (onLeaf : Option (List Bytes → Bytes → Option Error))
    : Callbacks where
  Callback := StateCallback
  Error := LeafError Error
  fails callback paths leaf :=
    match onLeaf.bind fun watch => watch paths leaf with
    | some err => some (.onLeaf err)
    | none =>
        match callback with
        | .slot => none
        | .account => if decodeAccount leaf = none then some .decode else none
  attached callback leaf :=
    match callback with
    | .slot => []
    | .account =>
        match decodeAccount leaf with
        | none => []
        | some (root, codeHash) =>
            [.subTrie root (onLeaf.map fun _ => .slot), .code (bytesToHash codeHash)]
  small callback leaf short := by
    cases callback with
    | slot => rfl
    | account => simp only [decodeAccount_small short]

/-- In every state a scheduler gets to, unless it panics over the path of a leaf in a branch, a node
in the batch has everything below it earlier in the batch or in the database, and a node in the
database has it in the database. The counter of a request is the number of its outstanding
children, and without pending requests the state is complete once the batch is written. No node may
be part of tries with different callbacks: its first request decides which one is called.
-/
theorem sync_complete_in_order {K : Callbacks} (σ : Source K) (unshared : σ.Unshared)
    {database : GoMap Entry Bytes} (closed : Closed σ database) (bloom : Option (Hash → Bool))
    {calls : List Call} (genuine : ∀ call ∈ calls, call.Genuine σ)
    : (new σ.root database σ.callback bloom).bind (run · calls) = .error .oddHexKey
      ∨ ∃ s, (new σ.root database σ.callback bloom).bind (run · calls) = .ok s
        ∧ (∀ newer hash data older, s.membatch = newer ++ (.node hash, data) :: older
          → ∃ callback, σ.Reached (.subTrie hash callback)
            ∧ ∀ below, Relation.TransGen σ.Refers (.subTrie hash callback) below
              → Written s.database older below.entry)
        ∧ (∀ hash callback, σ.Reached (.subTrie hash callback)
          → (s.database (.node hash)).isSome
          → ∀ below, Relation.TransGen σ.Refers (.subTrie hash callback) below
            → (s.database below.entry).isSome)
        ∧ (∀ hash, .node hash ∈ s.reqs
          → (s.request (.node hash)).deps = (s.outstanding hash : Int))
        ∧ (s.pending = 0 → ∀ link, σ.Reached link
          → ∃ data, s.flush.database link.entry = some data
            ∧ σ.blob link.entry.hash = some data) := by
  obtain ⟨first, started, invFirst⟩ := new_ok closed bloom
  rw [started]
  change first.run calls = _ ∨ ∃ s, first.run calls = .ok s ∧ _
  rcases run_ok unshared invFirst genuine with odd | ⟨s, done, inv⟩
  · exact .inl odd
  · refine .inr ⟨s, done, ?_, ?_, ?_, ?_⟩
    · intro newer hash data older batch
      have ordered := inv.ordered
      rw [batch] at ordered
      obtain ⟨before, -, here⟩ := ordered.suffix
      obtain ⟨callback, reached, direct⟩ := here hash rfl
      exact ⟨callback, reached, fun below path => before.transGen unshared reached direct path⟩
    · intro hash callback reached stored below path
      have whole : Ordered σ s.database (s.membatch ++ []) := by
        rw [List.append_nil]
        exact inv.ordered
      have before : Ordered σ s.database [] := whole.suffix
      have direct := before.below unshared reached (.inr stored)
      exact (before.transGen unshared reached direct path).resolve_left nofun
    · intro hash pending
      rw [inv.deps hash pending, List.count_nil, Nat.zero_add]
    · intro idle link reached
      have flushed := flush_ok unshared inv
      have none : s.reqs = ∅ := Finset.card_eq_zero.mp idle
      have rootStored : Written s.flush.database [] (.node σ.root) := by
        rcases flushed.root with empty | pending | present
        · exact absurd empty reached.1
        · have absent : Entry.node σ.root ∈ s.reqs := pending
          rw [none] at absent
          cases absent
        · exact present
      have stored : Written s.flush.database [] link.entry := by
        have top : σ.Reached (.subTrie σ.root σ.callback) := ⟨reached.1, .refl⟩
        rcases Relation.reflTransGen_iff_eq_or_transGen.mp reached.2 with rfl | path
        · exact rootStored
        · have direct := flushed.ordered.below unshared top rootStored
          exact flushed.ordered.transGen unshared top direct path
      obtain ⟨data, found⟩ := Option.isSome_iff_exists.mp
        (stored.resolve_left nofun)
      exact ⟨data, found, flushed.ordered.data _ data found⟩

/-- An account as it stands in a leaf. -/
def sampleAccount (root codeHash : Hash) : Bytes :=
  encodeToBytes (.list [.str [], .str [], .str (hashBytes root), .str (hashBytes codeHash)])

-- One instance for the numerals of nibbles.
local instance neZero : NeZero 17 := ⟨by decide⟩

/-- A leaf at the end of a one-nibble key. -/
def sampleLeaf (nibble : Nibble) (value : Bytes) : Bytes :=
  (Raw.short (hexToCompact [nibble, terminator]) (.value value)).encode

def sampleBranch (first second : Hash) : Bytes :=
  (Raw.full fun i => if i = 0 then .hash first else if i = 1 then .hash second else .nil).encode

abbrev sampleCallbacks : Callbacks :=
  stateCallbacks (none : Option (List Bytes → Bytes → Option Empty))

/-- Two accounts, one of them with a storage trie and a code. -/
def sampleSource : Source sampleCallbacks where
  blob hash :=
    if hash = 1 then some (sampleBranch 2 3)
    else if hash = 2 then some (sampleLeaf 4 (sampleAccount 4 5))
    else if hash = 3 then some (sampleLeaf 5 (sampleAccount emptyRoot emptyState))
    else if hash = 4 then some (sampleLeaf 6 (List.replicate 33 1))
    else if hash = 5 then some [0x60]
    else none
  root := 1
  callback := some .account
  zero := by decide

def sampleLinks : List (Link StateCallback) :=
  [.subTrie 1 (some .account), .subTrie 2 (some .account), .subTrie 3 (some .account),
    .subTrie 4 none, .code 5]

def sampleBelow (link : Link StateCallback) : List (Link StateCallback) :=
  sampleSource.links link

theorem sampleSource_reached {link : Link StateCallback} (reached : sampleSource.Reached link)
    : link ∈ sampleLinks := by
  have closed : ∀ link ∈ sampleLinks, ∀ below ∈ sampleBelow link, below ∈ sampleLinks := by
    decide +kernel
  obtain ⟨-, path⟩ := reached
  induction path with
  | refl => exact List.mem_cons_self
  | tail _ refers ih => exact closed _ ih _ refers

theorem sampleSource_unshared : sampleSource.Unshared := by
  have single : ∀ link ∈ sampleLinks, ∀ other ∈ sampleLinks, link.entry = other.entry
      → link = other := by
    decide +kernel
  intro hash callback callback' reached reached'
  have same := single _ (sampleSource_reached reached) _ (sampleSource_reached reached') rfl
  cases same
  rfl

/-- The sample is synced with a batch in between, data that come twice and data nobody asked
for.
-/
def sampleCalls : List Call :=
  [.missing 0, .process 1 (sampleBranch 2 3),
    .process 3 (sampleLeaf 5 (sampleAccount emptyRoot emptyState)), .commit,
    .process 2 (sampleLeaf 4 (sampleAccount 4 5)), .process 2 (sampleLeaf 4 (sampleAccount 4 5)),
    .process 5 [0x60], .missing 0, .process 4 (sampleLeaf 6 (List.replicate 33 1)),
    .process 5 [0x60]]

theorem sampleCalls_genuine : ∀ call ∈ sampleCalls, call.Genuine sampleSource := by
  intro call mem
  simp only [sampleCalls, List.mem_cons, List.not_mem_nil, or_false] at mem
  rcases mem with rfl | rfl | rfl | rfl | rfl | rfl | rfl | rfl | rfl | rfl
  all_goals trivial

theorem Closed.empty {K : Callbacks} (σ : Source K) : Closed σ GoMap.empty := ⟨nofun, nofun⟩

theorem sync_complete_in_order_sample
    : sampleSource.Unshared ∧ Closed sampleSource GoMap.empty
      ∧ (∀ call ∈ sampleCalls, call.Genuine sampleSource)
      ∧ ∃ s, (new sampleSource.root GoMap.empty sampleSource.callback none).bind
            (run · sampleCalls) = .ok s
        ∧ s.pending = 0
        ∧ ∀ link, sampleSource.Reached link
          → ∃ data, s.flush.database link.entry = some data
            ∧ sampleSource.blob link.entry.hash = some data := by
  refine ⟨sampleSource_unshared, .empty _, sampleCalls_genuine, ?_⟩
  have idle : (((new sampleSource.root GoMap.empty sampleSource.callback none).bind
      (run · sampleCalls)).toOption.map pending) = some 0 := by
    decide +kernel
  rcases sync_complete_in_order sampleSource sampleSource_unshared (.empty _) none
    sampleCalls_genuine with odd | ⟨s, done, -, -, -, complete⟩
  · rw [odd] at idle
    cases idle
  · rw [done] at idle
    have zero : s.pending = 0 := Option.some.inj idle
    exact ⟨s, done, zero, complete zero⟩

/-- The leaf of an account, at 3, is at the same time the storage trie of another account. -/
def sharedSource : Source sampleCallbacks where
  blob hash :=
    if hash = 1 then some (sampleBranch 2 6)
    else if hash = 2 then some (sampleLeaf 4 (sampleAccount 3 emptyState))
    else if hash = 3 then some (sampleLeaf 5 (sampleAccount emptyRoot 5))
    else if hash = 5 then some [0x60]
    else if hash = 6 then some (Raw.short (hexToCompact [7]) (.hash 3)).encode
    else none
  root := 1
  callback := some .account
  zero := by decide

def sharedCalls : List Call :=
  [.process 1 (sampleBranch 2 6), .process 2 (sampleLeaf 4 (sampleAccount 3 emptyState)),
    .process 6 (Raw.short (hexToCompact [7]) (.hash 3)).encode,
    .process 3 (sampleLeaf 5 (sampleAccount emptyRoot 5)), .commit]

def sharedBelow (link : Link StateCallback) : List (Link StateCallback) :=
  sharedSource.links link

/-- The leaf is first requested as a part of the storage trie, without a callback. The request of
the account trie only adds a parent to it, so the code of the account is never requested: nothing
is pending, and the code is missing.
-/
theorem shared_code_missing
    : Closed sharedSource GoMap.empty
      ∧ (∀ call ∈ sharedCalls, call.Genuine sharedSource)
      ∧ sharedSource.Reached (.code 5)
      ∧ ∃ s, (new sharedSource.root GoMap.empty sharedSource.callback none).bind
            (run · sharedCalls) = .ok s
        ∧ s.pending = 0 ∧ s.database (.node 3) ≠ none ∧ s.database (.code 5) = none := by
  refine ⟨.empty _, ?_, ⟨by decide, ?_⟩, ?_⟩
  · intro call mem
    simp only [sharedCalls, List.mem_cons, List.not_mem_nil, or_false] at mem
    rcases mem with rfl | rfl | rfl | rfl | rfl
    all_goals trivial
  · have toExtension : Link.subTrie 6 (some .account)
        ∈ sharedBelow (.subTrie 1 (some .account)) := by
      decide +kernel
    have toLeaf : Link.subTrie 3 (some .account) ∈ sharedBelow (.subTrie 6 (some .account)) := by
      decide +kernel
    have toCode : Link.code 5 ∈ sharedBelow (.subTrie 3 (some .account)) := by
      decide +kernel
    exact ((Relation.ReflTransGen.single toExtension).tail toLeaf).tail toCode
  · have outcome : (((new sharedSource.root GoMap.empty sharedSource.callback none).bind
        (run · sharedCalls)).toOption.map fun s =>
          (s.pending, (s.database (.node 3)).isSome, s.database (.code 5)))
        = some (0, true, none) := by
      decide +kernel
    cases run : (new sharedSource.root GoMap.empty sharedSource.callback none).bind
        (run · sharedCalls) with
    | error fault =>
        rw [run] at outcome
        cases outcome
    | ok s =>
        rw [run] at outcome
        have values := Option.some.inj outcome
        simp only [Prod.mk.injEq] at values
        refine ⟨s, rfl, values.1, ?_, values.2.2⟩
        intro absent
        rw [absent] at values
        cases values.2.1

end GoBinacoin.TrieSync
