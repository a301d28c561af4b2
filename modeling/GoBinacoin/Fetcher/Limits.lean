import GoBinacoin.Fetcher.BlockFetcher
import GoBinacoin.Lib.Counter

/-! What the counters of the block fetcher count along its runs. -/

namespace GoBinacoin.Fetcher

open Counter BlockFetcher

/-- The number of announcements of a peer. -/
def byPeer (l : List BlockAnnounce) : String → Nat := tally (fun a => some a.origin) l

/-- The number of blocks of a peer. -/
def queuedBy (l : List Inject) : String → Nat := tally (fun op => some op.origin) l

variable {counts : GoMap String Nat} {g : String → Nat} {f : BlockFetcher}

theorem count_eq (holds : Holds counts g) (peer : String) : count counts peer = g peer :=
  holds.getD peer

theorem holds_increment {g g' : String → Nat} (holds : Holds counts g)
    {peer : String} (more : ∀ q, g' q = g q + weight (some peer) q)
    : Holds (counts.set peer (count counts peer + 1)) g' := by
  have written := holds.write g' peer fun q ne => by
    rw [more, weight, if_neg (by simpa using ne.symm), Nat.add_zero]
  rwa [more, weight_pos rfl, ← count_eq holds, entry, if_neg (Nat.succ_ne_zero _)] at written

/-- One announcement less of a peer; no counter of zero is kept. -/
theorem holds_decrement (holds : Holds counts g) (peer : String)
    : Holds (decrement counts peer) fun q => g q - weight (some peer) q := by
  have written := holds.write (fun q => g q - weight (some peer) q) peer fun q ne => by
    simp [weight, ne.symm]
  rw [weight_pos rfl, ← count_eq holds] at written
  unfold decrement
  unfold entry at written
  split
  · rename_i last
    rwa [if_pos last] at written
  · rename_i more
    rwa [if_neg more] at written

/-- The two tests agree on a peer that was counted. -/
theorem decrementQueue_eq {peer : String} (counted : 0 < count counts peer)
    : decrementQueue counts peer = decrement counts peer := by
  have last : count counts peer = 1 ↔ count counts peer - 1 = 0 := by omega
  simp only [decrementQueue, decrement, last]

/-- A list of announcements less, by induction on the list. -/
theorem holds_decrements (holds : Holds counts g) (l : List BlockAnnounce)
    : Holds (l.foldl (fun counts a => decrement counts a.origin) counts)
        fun q => g q - byPeer l q := by
  induction l generalizing counts g with
  | nil => exact holds
  | cons a l ih =>
    have rest := ih (holds_decrement holds a.origin)
    refine fun q => (rest q).trans (congrArg entry ?_)
    have first : byPeer (a :: l) q = byPeer l q + weight (some a.origin) q := tally_cons a l q
    show g q - weight (some a.origin) q - byPeer l q = g q - byPeer (a :: l) q
    omega

theorem byPeer_split (hash : Hash) (l : List BlockAnnounce) (peer : String)
    : byPeer l peer = byPeer (under hash l) peer + byPeer (without hash l) peer := by
  unfold byPeer tally under without
  rw [List.countP_eq_countP_filter_add l _ fun a : BlockAnnounce => a.hash = hash]
  simp

/-- The announcements of a hash that are in flight come from peers without others scheduled. -/
def BlockFetcher.Clean (f : BlockFetcher) (hash : Hash) : Prop :=
  ∀ a ∈ f.inFlight hash, byPeer (without hash f.announced) a.origin = 0

/-- The counters of scheduled announcements are exact. -/
structure AnnouncesExact (f : BlockFetcher) : Prop where
  holds : Holds f.announces (byPeer f.announced)
  within : ∀ peer, byPeer f.announced peer ≤ hashLimit

/-- The counters of queued blocks are exact. -/
structure QueuesExact (f : BlockFetcher) : Prop where
  holds : Holds f.queues (queuedBy f.queued)
  within : ∀ peer, queuedBy f.queued peer ≤ blockLimit

/-- A hash that is forgotten is clean. -/
def BlockFetcher.CleanAt (f : BlockFetcher) : Effect → Prop
  | .forgetHash hash => f.Clean hash
  | _ => True

instance (f : BlockFetcher) (effect : Effect) : Decidable (f.CleanAt effect) :=
  match effect with
  | .forgetHash hash => inferInstanceAs (Decidable (∀ a ∈ f.inFlight hash, _ = 0))
  | .announce _ | .forgetBlock _ | .fetch _ | .gather _ | .complete _ | .enqueue _ | .pop _ =>
      .isTrue trivial

/-- What the loop has checked before an effect. -/
def BlockFetcher.Checked (f : BlockFetcher) : Effect → Prop
  | .announce a => count f.announces a.origin < hashLimit
  | .enqueue op => count f.queues op.origin < blockLimit
  | _ => True

section Effects

variable {f : BlockFetcher} {effect : Effect}

/-- Forgetting a clean hash keeps the counters of announcements exact. -/
theorem AnnouncesExact.forgetHash {hash : Hash} (exact : AnnouncesExact f) (clean : f.Clean hash)
    : AnnouncesExact (f.forgetHash hash) := by
  refine ⟨fun peer => ?_, fun peer => ?_⟩
  · refine (holds_decrements exact.holds _ peer).trans (congrArg entry ?_)
    have parts := byPeer_split hash f.announced peer
    have all : byPeer (under hash f.announced ++ f.inFlight hash) peer
        = byPeer (under hash f.announced) peer + byPeer (f.inFlight hash) peer :=
      tally_append _ _ peer
    show byPeer f.announced peer - _ = byPeer (without hash f.announced) peer
    -- a peer with something in flight has nothing left to be counted
    rcases Nat.eq_zero_or_pos (byPeer (f.inFlight hash) peer) with zero | some
    · omega
    · obtain ⟨a, member, own⟩ := List.countP_pos_iff.mp some
      have left := clean a member
      rw [show a.origin = peer by simpa using own] at left
      omega
  · have parts := byPeer_split hash f.announced peer
    have := exact.within peer
    show byPeer (without hash f.announced) peer ≤ hashLimit
    omega

/-- Every effect on announcements keeps their counters exact. -/
theorem AnnouncesExact.apply (exact : AnnouncesExact f) (checked : f.Checked effect)
    (clean : f.CleanAt effect)
    : AnnouncesExact (f.apply effect) := by
  cases effect with
  | announce a =>
    have more (peer : String)
        : byPeer (f.announced ++ [a]) peer
          = byPeer f.announced peer + weight (some a.origin) peer := by
      simp [byPeer]
    refine ⟨holds_increment exact.holds more, fun peer => (more peer).trans_le ?_⟩
    have room : count f.announces a.origin < hashLimit := checked
    rw [count_eq exact.holds] at room
    unfold weight
    split
    · rename_i same
      rw [← Option.some.inj same]
      exact room
    · exact exact.within peer
  | forgetHash hash => exact exact.forgetHash clean
  | forgetBlock hash =>
    simp only [apply, forgetBlock]
    split
    · exact exact
    · exact ⟨exact.holds, exact.within⟩
  | _ => exact ⟨exact.holds, exact.within⟩

/-- Every effect on the queue keeps its counters exact. -/
theorem QueuesExact.apply (exact : QueuesExact f) (checked : f.Checked effect)
    : QueuesExact (f.apply effect) := by
  cases effect with
  | enqueue op =>
    have more (peer : String)
        : queuedBy (f.queued ++ [op]) peer
          = queuedBy f.queued peer + weight (some op.origin) peer := by
      simp [queuedBy]
    refine ⟨holds_increment exact.holds more, fun peer => (more peer).trans_le ?_⟩
    have room : count f.queues op.origin < blockLimit := checked
    rw [count_eq exact.holds] at room
    unfold weight
    split
    · rename_i same
      rw [← Option.some.inj same]
      exact room
    · exact exact.within peer
  | forgetBlock hash =>
    simp only [apply, forgetBlock]
    cases found : f.queued.find? (·.hash = hash) with
    | none => exact exact
    | some insert =>
      have less (peer : String)
          : queuedBy f.queued peer
            = queuedBy (f.queued.eraseP (·.hash = hash)) peer
              + weight (some insert.origin) peer :=
        (tally_perm (perm_eraseP found) peer).trans (tally_cons _ _ _)
      refine ⟨fun peer => ?_, fun peer => ?_⟩
      · have counted : 0 < count f.queues insert.origin := by
          rw [count_eq exact.holds, less, weight_pos rfl]
          exact Nat.succ_pos _
        refine (congrFun (decrementQueue_eq counted) peer).trans ?_
        refine (holds_decrement exact.holds insert.origin peer).trans (congrArg entry ?_)
        exact Nat.sub_eq_of_eq_add (less peer)
      · have := less peer
        have := exact.within peer
        show queuedBy (f.queued.eraseP (·.hash = hash)) peer ≤ blockLimit
        omega
  | _ => exact ⟨exact.holds, exact.within⟩

end Effects

/-- Every effect in a list is checked when it comes. -/
def BlockFetcher.CheckedAll (f : BlockFetcher) : List Effect → Prop
  | [] => True
  | effect :: effects => f.Checked effect ∧ (f.apply effect).CheckedAll effects

/-- Every hash is clean when it is forgotten. -/
def BlockFetcher.CleanAll (f : BlockFetcher) : List Effect → Prop
  | [] => True
  | effect :: effects => f.CleanAt effect ∧ (f.apply effect).CleanAll effects

instance BlockFetcher.decidableCleanAll (f : BlockFetcher)
    : (effects : List Effect) → Decidable (f.CleanAll effects)
  | [] => .isTrue trivial
  | effect :: effects =>
      have := (f.apply effect).decidableCleanAll effects
      inferInstanceAs (Decidable (f.CleanAt effect ∧ _))

/-- The code checks the limit of the peer before it queues a block. -/
theorem checkedAll_enqueue (f : BlockFetcher) (op : Inject) (height : UInt64)
    : f.CheckedAll (f.enqueue op height) := by
  unfold enqueue
  split
  · exact ⟨trivial, trivial⟩
  · rename_i room
    split
    · exact ⟨trivial, trivial⟩
    · split
      · trivial
      · exact ⟨Nat.lt_of_succ_le (Nat.not_lt.mp room), trivial⟩

/-- Every effect of an action has passed the check of its limit. -/
theorem checkedAll_effects (f : BlockFetcher) (action : Action)
    : f.CheckedAll (f.effects action) := by
  cases action with
  | notify notification height =>
    simp only [effects]
    split
    · trivial
    · rename_i room
      repeat' split
      all_goals first
        | trivial
        | exact ⟨Nat.lt_of_succ_le (Nat.not_lt.mp room), trivial⟩
  | inject op height =>
    simp only [effects]
    split
    · trivial
    · exact checkedAll_enqueue f op height
  | lightHeader announce height => exact checkedAll_enqueue f _ height
  | block hash number height =>
    simp only [effects]
    split
    · exact checkedAll_enqueue f _ height
    · trivial
  | _ =>
    simp only [effects, filterHeader]
    repeat' split
    all_goals simp [CheckedAll, Checked]

def BlockFetcher.run (f : BlockFetcher) (actions : List Action) : BlockFetcher :=
  actions.foldl handle f

/-- Along the run, every hash is clean when it is forgotten. -/
def BlockFetcher.CleanRun (f : BlockFetcher) : List Action → Prop
  | [] => True
  | action :: actions => f.CleanAll (f.effects action) ∧ (f.handle action).CleanRun actions

instance BlockFetcher.decidableCleanRun (f : BlockFetcher)
    : (actions : List Action) → Decidable (f.CleanRun actions)
  | [] => .isTrue trivial
  | action :: actions =>
      have := (f.handle action).decidableCleanRun actions
      inferInstanceAs (Decidable (f.CleanAll (f.effects action) ∧ _))

theorem QueuesExact.applyAll {effects : List Effect} (exact : QueuesExact f)
    (checked : f.CheckedAll effects)
    : QueuesExact (effects.foldl BlockFetcher.apply f) := by
  induction effects generalizing f with
  | nil => exact exact
  | cons effect effects ih => exact ih (exact.apply checked.1) checked.2

theorem AnnouncesExact.applyAll {effects : List Effect}
    (exact : AnnouncesExact f) (checked : f.CheckedAll effects) (clean : f.CleanAll effects)
    : AnnouncesExact (effects.foldl BlockFetcher.apply f) := by
  induction effects generalizing f with
  | nil => exact exact
  | cons effect effects ih => exact ih (exact.apply checked.1 clean.1) checked.2 clean.2

theorem QueuesExact.run (exact : QueuesExact f) (actions : List Action)
    : QueuesExact (f.run actions) := by
  induction actions generalizing f with
  | nil => exact exact
  | cons action actions ih => exact ih (exact.applyAll (checkedAll_effects f action))

theorem AnnouncesExact.run (exact : AnnouncesExact f) {actions : List Action}
    (clean : f.CleanRun actions)
    : AnnouncesExact (f.run actions) := by
  induction actions generalizing f with
  | nil => exact exact
  | cons action actions ih =>
    exact ih (exact.applyAll (checkedAll_effects f action) clean.1) clean.2

/-- The counters of queued blocks are exact along every run, and those of scheduled announcements
along every run that only forgets hashes that are clean.
-/
theorem fetcher_limits_exact (light : Bool) (actions : List Action)
    : QueuesExact (run { light := light } actions)
      ∧ (CleanRun { light := light } actions
        → AnnouncesExact (run { light := light } actions)) := by
  refine ⟨QueuesExact.run ⟨fun _ => rfl, fun _ => Nat.zero_le _⟩ actions, fun clean => ?_⟩
  exact AnnouncesExact.run ⟨fun _ => rfl, fun _ => Nat.zero_le _⟩ clean

/-- A block that peer `p` announces. -/
def announcement (hash : Hash) : BlockAnnounce :=
  {
    hash := hash
    number := 1
    origin := "p"
  }

/-- A block is announced and fetched; its header is of another block. -/
theorem fetcher_limits_exact_dropped
    : AnnouncesExact (run { light := false }
        [.notify (announcement 1) 0, .fetchTimer 1 0 false, .header "p" ⟨1, 2, 0, 0⟩ false]) :=
  (fetcher_limits_exact false _).2 (by decide +kernel)

/-- A block is fetched, another one is announced, the fetch times out: the second announcement
is scheduled and not counted.
-/
theorem expired_fetch_uncounts
    : count (run { light := false }
          [.notify (announcement 1) 0, .fetchTimer 1 0 false, .notify (announcement 2) 0,
            .expire 1]).announces "p" = 0
      ∧ byPeer (run { light := false }
          [.notify (announcement 1) 0, .fetchTimer 1 0 false, .notify (announcement 2) 0,
            .expire 1]).announced "p" = 1 := by
  decide +kernel

end GoBinacoin.Fetcher
