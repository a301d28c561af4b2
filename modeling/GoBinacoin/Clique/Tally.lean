import GoBinacoin.Clique.Snapshot

/-! The tally of a snapshot is a function of its votes and its signers. Each part of a round keeps
it so, and with it that every vote counts, once, and was cast by a signer.
-/

namespace GoBinacoin.Clique

open Types

/-- How many votes are on an account. -/
def votesOn (votes : List Vote) (address : Address) : Nat :=
  votes.countP (·.address = address)

/-- The tally of accounts with so many votes each. -/
def tallyOf (signers : Finset Address) (counts : Address → Nat) : GoMap Address Tally :=
  fun address =>
    if counts address = 0 then none
    else some { authorize := decide (address ∉ signers), votes := counts address }

/-- A vote asks for what its account is not yet. -/
def Vote.Meaningful (signers : Finset Address) (vote : Vote) : Prop :=
  vote.authorize = decide (vote.address ∉ signers)

structure Snapshot.Consistent (s : Snapshot) : Prop where
  tally : s.tally = tallyOf s.signers (votesOn s.votes)
  meaningful : ∀ vote ∈ s.votes, vote.Meaningful s.signers
  single : (s.votes.map fun vote => (vote.signer, vote.address)).Nodup
  current : ∀ vote ∈ s.votes, vote.signer ∈ s.signers

theorem votesOn_cons (vote : Vote) (votes : List Vote) (address : Address)
    : votesOn (vote :: votes) address
      = votesOn votes address + if vote.address = address then 1 else 0 := by
  simp [votesOn, List.countP_cons]

theorem votesOn_append (left right : List Vote) (address : Address)
    : votesOn (left ++ right) address = votesOn left address + votesOn right address :=
  List.countP_append

theorem votesOn_filter_self (votes : List Vote) (address : Address)
    : votesOn (votes.filter fun vote => vote.address ≠ address) address = 0 := by
  simp [votesOn, List.countP_eq_zero]

theorem votesOn_filter_of_ne (votes : List Vote) {address other : Address} (apart : other ≠ address)
    : votesOn (votes.filter fun vote => vote.address ≠ address) other = votesOn votes other := by
  simp only [votesOn, List.countP_filter]
  apply List.countP_congr
  intro vote _
  simp only [Bool.and_eq_true, decide_eq_true_eq, and_iff_left_iff_imp]
  rintro rfl
  exact apart

variable {signers : Finset Address} {s next : Snapshot} {counts : Address → Nat}
  {address : Address}

theorem tallyOf_congr {counts' : Address → Nat} (same : ∀ address, counts address = counts' address)
    : tallyOf signers counts = tallyOf signers counts' := by
  rw [funext same]

/-- With one vote less on an account, the tally is the one that `uncast` leaves. -/
theorem Snapshot.uncast_tallyOf {vote : Vote} (meaningful : vote.Meaningful signers)
    (tally : s.tally = tallyOf signers
      fun address => counts address + if vote.address = address then 1 else 0)
    : (s.uncast vote.address vote.authorize).1 = { s with tally := tallyOf signers counts } := by
  have found : s.tally vote.address
      = some { authorize := vote.authorize, votes := counts vote.address + 1 } := by
    rw [tally, meaningful]
    simp [tallyOf]
  have others : ∀ address, address ≠ vote.address
      → s.tally address = tallyOf signers counts address := by
    intro address apart
    simp [tally, tallyOf, Ne.symm apart]
  have self : tallyOf signers counts vote.address
      = if counts vote.address = 0 then none
        else some { authorize := vote.authorize, votes := counts vote.address } := by
    rw [meaningful]
    rfl
  simp only [uncast, found, ne_eq, not_true_eq_false, if_false, Nat.add_sub_cancel]
  split
  · rename_i several
    dsimp only
    congr 1
    funext address
    rw [GoMap.set_apply]
    split
    · rename_i same
      rw [same, self, if_neg (by omega)]
    · rename_i apart
      exact others address apart
  · rename_i last
    dsimp only
    congr 1
    funext address
    rw [GoMap.delete_apply]
    split
    · rename_i same
      rw [same, self, if_pos (by omega)]
    · rename_i apart
      exact others address apart

variable {authorize : Bool} {header : Header} {headers : List Header}

theorem Snapshot.meaningful_of_validVote (valid : s.validVote address authorize = true)
    : authorize = decide (address ∉ s.signers) := by
  unfold validVote at valid
  by_cases member : address ∈ s.signers <;> cases authorize <;> simp_all

/-- With one vote more on an account, the tally is the one that `cast` leaves. -/
theorem Snapshot.cast_tallyOf (valid : s.validVote address authorize = true)
    (tally : s.tally = tallyOf s.signers counts)
    : s.cast address authorize
      = ({ s with tally := tallyOf s.signers fun other =>
            counts other + if address = other then 1 else 0 }, true) := by
  have meaningful := meaningful_of_validVote valid
  simp only [cast, valid, Bool.not_true, Bool.false_eq_true, if_false]
  congr 2
  funext other
  rw [GoMap.set_apply]
  by_cases same : other = address
  · subst same
    rw [if_pos rfl, tally, meaningful]
    by_cases first : counts other = 0 <;> simp [tallyOf, first]
  · simp [tally, tallyOf, same, Ne.symm same]

theorem newSnapshot_consistent (number : UInt64) (hash : Hash) (signers : List Address)
    : (newSnapshot number hash signers).Consistent :=
  {
    tally := rfl
    meaningful := nofun
    single := List.nodup_nil
    current := nofun
  }

/-- There is no previous vote, or it leaves the list and is uncast. -/
theorem Snapshot.discardPrevious_cases (s : Snapshot) (signer address : Address)
    : ((∀ vote ∈ s.votes, (vote.signer, vote.address) ≠ (signer, address))
        ∧ s.discardPrevious signer address = s)
      ∨ ∃ before vote after, s.votes = before ++ vote :: after
        ∧ (vote.signer, vote.address) = (signer, address)
        ∧ s.discardPrevious signer address
          = { (s.uncast vote.address vote.authorize).1 with votes := before ++ after } := by
  unfold discardPrevious
  split
  · rename_i absent
    left
    refine ⟨?_, rfl⟩
    intro vote member
    simpa using List.find?_eq_none.mp absent vote member
  · rename_i vote found
    obtain ⟨matched, before, after, votes, earlier⟩ := List.find?_eq_some_iff_append.mp found
    right
    refine ⟨before, vote, after, votes, by simpa using matched, ?_⟩
    have erased : s.votes.eraseP (fun vote => vote.signer = signer ∧ vote.address = address)
        = before ++ after := by
      rw [votes, List.eraseP_append_right, List.eraseP_cons_of_pos]
      · exact matched
      · exact fun other member => by simpa [imp_iff_not_or] using earlier other member
    obtain ⟨tally, uncast⟩ := s.uncast_eq vote.address vote.authorize
    simp only [uncast, erased]

namespace Snapshot.Consistent

variable {s : Snapshot} (consistent : s.Consistent)
include consistent

theorem withRecents (recents : Finmap fun _ : UInt64 => Address)
    : ({ s with recents := recents } : Snapshot).Consistent :=
  ⟨consistent.tally, consistent.meaningful, consistent.single, consistent.current⟩

theorem dropRecent (number : UInt64) : (s.dropRecent number).Consistent := by
  obtain ⟨recents, dropped⟩ := s.dropRecent_eq number
  rw [dropped]
  exact consistent.withRecents recents

theorem startEpoch (epoch number : UInt64) : (s.startEpoch epoch number).Consistent := by
  unfold Snapshot.startEpoch
  split
  · exact ⟨rfl, nofun, List.nodup_nil, nofun⟩
  · exact consistent

/-- Taking a vote out of the list and of the tally keeps them consistent. -/
theorem discard {before after : List Vote} {vote : Vote} (votes : s.votes = before ++ vote :: after)
    : ({ (s.uncast vote.address vote.authorize).1 with votes := before ++ after }
        : Snapshot).Consistent := by
  have sub : (before ++ after).Sublist s.votes := by
    rw [votes]
    exact (List.sublist_cons_self vote after).append_left before
  have counted : s.tally = tallyOf s.signers fun address =>
      votesOn (before ++ after) address + if vote.address = address then 1 else 0 := by
    rw [consistent.tally, votes]
    apply tallyOf_congr
    intro address
    rw [votesOn_append, votesOn_cons, votesOn_append]
    omega
  have meaningful : vote.Meaningful s.signers := consistent.meaningful vote (by simp [votes])
  rw [uncast_tallyOf meaningful counted]
  exact
    {
      tally := rfl
      meaningful := fun other member => consistent.meaningful other (sub.subset member)
      single := consistent.single.sublist (sub.map _)
      current := fun other member => consistent.current other (sub.subset member)
    }

theorem discardPrevious (signer address : Address)
    : (s.discardPrevious signer address).Consistent := by
  rcases s.discardPrevious_cases signer address with
    ⟨-, same⟩ | ⟨before, vote, after, votes, -, same⟩
  · rw [same]
    exact consistent
  · rw [same]
    exact consistent.discard votes

/-- After the previous vote of a signer on an account is gone, there is none. -/
theorem discardPrevious_fresh (signer address : Address)
    : ∀ vote ∈ (s.discardPrevious signer address).votes,
        (vote.signer, vote.address) ≠ (signer, address) := by
  rcases s.discardPrevious_cases signer address
    with ⟨absent, same⟩ | ⟨before, vote, after, votes, matched, same⟩
  · rw [same]
    exact absent
  · rw [same]
    intro other member
    have single := consistent.single
    rw [votes, List.map_append, List.map_cons, List.nodup_middle, List.nodup_cons] at single
    rw [← matched]
    intro equal
    apply single.1
    rw [← equal, ← List.map_append]
    exact List.mem_map_of_mem member

/-- The vote of a header is counted by the tally of its account, or opens one. -/
theorem castVote {signer : Address} (number : UInt64) (authorize : Bool)
    (allowed : signer ∈ s.signers)
    (fresh : ∀ vote ∈ s.votes, (vote.signer, vote.address) ≠ (signer, address))
    : (s.castVote signer number address authorize).Consistent := by
  unfold Snapshot.castVote
  by_cases valid : s.validVote address authorize = true
  · rw [cast_tallyOf valid consistent.tally]
    dsimp only
    rw [if_pos rfl]
    exact
      {
        tally := by
          apply tallyOf_congr
          intro other
          rw [votesOn_append, votesOn_cons, votesOn, votesOn, List.countP_nil, Nat.zero_add]
        meaningful := by
          intro vote member
          rcases List.mem_append.mp member with member | member
          · exact consistent.meaningful vote member
          · rw [List.mem_singleton.mp member]
            exact meaningful_of_validVote valid
        single := by
          rw [List.map_append, List.nodup_append]
          refine ⟨consistent.single, List.nodup_singleton _, ?_⟩
          intro pair member other single
          obtain ⟨vote, found, rfl⟩ := List.mem_map.mp member
          rw [List.mem_singleton.mp single]
          exact fresh vote found
        current := by
          intro vote member
          rcases List.mem_append.mp member with member | member
          · exact consistent.current vote member
          · rw [List.mem_singleton.mp member]
            exact allowed
      }
  · simp only [Snapshot.cast, valid, Bool.not_false, if_true, Bool.false_eq_true, if_false]
    exact consistent

end Snapshot.Consistent

/-- The votes of an account leave the list and the tally; the votes already scanned stay counted. -/
theorem Snapshot.discardCast_eq (signer : Address) (votes : List Vote)
    (meaningful : ∀ vote ∈ votes, vote.Meaningful signers)
    (tally : s.tally = tallyOf signers fun address => counts address + votesOn votes address)
    : s.discardCast signer votes
      = { s with
          votes := votes.filter fun vote => vote.signer ≠ signer
          tally := tallyOf signers fun address =>
            counts address + votesOn (votes.filter fun vote => vote.signer ≠ signer) address } := by
  induction votes generalizing s counts with
  | nil => rw [discardCast, List.filter_nil, ← tally]
  | cons vote rest ih =>
    have later := fun other member => meaningful other (.tail _ member)
    rw [discardCast]
    by_cases own : vote.signer = signer
    · have counted : s.tally = tallyOf signers fun address =>
          (counts address + votesOn rest address) + if vote.address = address then 1 else 0 := by
        rw [tally]
        apply tallyOf_congr
        intro address
        rw [votesOn_cons]
        omega
      rw [if_pos own, uncast_tallyOf (meaningful vote List.mem_cons_self) counted,
        List.filter_cons_of_neg (by simpa using own)]
      exact ih later rfl
    · have counted : s.tally = tallyOf signers fun address =>
          (counts address + if vote.address = address then 1 else 0) + votesOn rest address := by
        rw [tally]
        apply tallyOf_congr
        intro address
        rw [votesOn_cons]
        omega
      rw [if_neg own, List.filter_cons_of_pos (by simpa using own), ih later counted]
      dsimp only
      congr 1
      apply tallyOf_congr
      intro address
      rw [votesOn_cons]
      omega

/-- An account that is no signer any more takes its votes with it. -/
theorem Snapshot.deauthorize_eq (consistent : s.Consistent) (number : UInt64) (address : Address)
    : ∃ recents, s.deauthorize number address
      = { s with
          signers := s.signers.erase address
          recents := recents
          votes := s.votes.filter fun vote => vote.signer ≠ address
          tally := tallyOf s.signers
            (votesOn (s.votes.filter fun vote => vote.signer ≠ address)) } := by
  obtain ⟨recents, dropped⟩ :=
    ({ s with signers := s.signers.erase address } : Snapshot).dropRecent_eq number
  -- The tally counts as before the removal, until the votes on the account end too.
  have counted : s.tally = tallyOf s.signers fun address => 0 + votesOn s.votes address := by
    simpa using consistent.tally
  have discarded := discardCast_eq address s.votes consistent.meaningful
    (s := { s with signers := s.signers.erase address, recents := recents }) counted
  simp only [Nat.zero_add] at discarded
  refine ⟨recents, ?_⟩
  rw [deauthorize, dropped]
  exact discarded

/-- Votes on an account end when it changes sides; the votes on others do not notice. -/
theorem Snapshot.Consistent.closed
    {votes : List Vote} (meaningful : ∀ vote ∈ votes, vote.Meaningful signers)
    (single : (votes.map fun vote => (vote.signer, vote.address)).Nodup)
    (current : ∀ vote ∈ votes, vote.signer ∈ s.signers)
    (others : ∀ other, other ≠ address → (other ∈ s.signers ↔ other ∈ signers))
    (listed : s.votes = votes.filter fun vote => vote.address ≠ address)
    (tally : s.tally = (tallyOf signers (votesOn votes)).delete address)
    : s.Consistent := by
  have kept : ∀ vote ∈ s.votes, vote ∈ votes ∧ vote.address ≠ address := by
    intro vote member
    rw [listed] at member
    exact ⟨(List.mem_filter.mp member).1, of_decide_eq_true (List.mem_filter.mp member).2⟩
  exact
    {
      tally := by
        funext other
        rw [tally, GoMap.delete_apply, listed]
        split
        · rename_i same
          simp only [same, tallyOf, votesOn_filter_self, if_true]
        · rename_i apart
          simp only [tallyOf, votesOn_filter_of_ne votes apart, others other apart]
      meaningful := by
        intro vote member
        have asked : vote.Meaningful signers := meaningful vote (kept vote member).1
        unfold Vote.Meaningful at asked ⊢
        rw [asked, decide_eq_decide, others vote.address (kept vote member).2]
      single := by
        rw [listed]
        exact single.sublist (List.filter_sublist.map _)
      current := fun vote member => current vote (kept vote member).1
    }

/-- A decided vote keeps votes and tally consistent. -/
theorem Snapshot.Consistent.settle (consistent : s.Consistent) (number : UInt64) (address : Address)
    : (s.settle number address).Consistent := by
  unfold Snapshot.settle
  dsimp only
  split
  · rename_i passed
    split
    · apply closed consistent.meaningful consistent.single
        (fun vote member => Finset.mem_insert_of_mem (consistent.current vote member))
        (fun other apart => by simp [apart]) rfl
      rw [← consistent.tally]
    · obtain ⟨recents, removed⟩ := deauthorize_eq consistent number address
      have kept : ∀ vote ∈ s.votes.filter (fun vote => vote.signer ≠ address),
          vote ∈ s.votes ∧ vote.signer ≠ address := by
        intro vote member
        exact ⟨(List.mem_filter.mp member).1, of_decide_eq_true (List.mem_filter.mp member).2⟩
      rw [removed]
      exact closed (fun vote member => consistent.meaningful vote (kept vote member).1)
        (consistent.single.sublist (List.filter_sublist.map _))
        (fun vote member => Finset.mem_erase.mpr
          ⟨(kept vote member).2, consistent.current vote (kept vote member).1⟩)
        (fun other apart => by simp [apart]) rfl rfl
  · exact consistent

/-- Recording the vote of a signer keeps votes and tally consistent. -/
theorem Engine.record_consistent {signer : Address}
    (consistent : s.Consistent) (allowed : signer ∈ s.signers)
    (recorded : record s header signer = .ok next)
    : next.Consistent := by
  unfold record at recorded
  have signed := consistent.withRecents (s.recents.insert (UInt64.ofNat header.number) signer)
  rcases asked : voteOf header.nonce with e | authorize
  · rw [asked] at recorded
    cases recorded
  rw [asked] at recorded
  cases recorded
  have discarded := signed.discardPrevious signer header.coinbase
  have fresh := signed.discardPrevious_fresh signer header.coinbase
  obtain ⟨votes, tally, previous⟩ := Snapshot.discardPrevious_eq
    { s with recents := s.recents.insert (UInt64.ofNat header.number) signer }
    signer header.coinbase
  refine (discarded.castVote (UInt64.ofNat header.number) authorize ?_ fresh).settle _ _
  rw [previous]
  exact allowed

variable (c : Engine) (consistent : s.Consistent)
include consistent

/-- One header keeps votes and tally consistent. -/
theorem Engine.applyHeader_consistent (applied : c.applyHeader s header = .ok next)
    : next.Consistent := by
  obtain ⟨signer, -, allowed, -, recorded⟩ := c.applyHeader_ok applied
  have dropped := (consistent.startEpoch c.epoch (UInt64.ofNat header.number)).dropRecent
    (UInt64.ofNat header.number)
  refine record_consistent dropped ?_ recorded
  rw [Snapshot.dropRecent_signers, Snapshot.startEpoch_signers]
  exact allowed

/-- All headers do, by induction on the headers. -/
theorem Engine.applyHeaders_consistent (applied : c.applyHeaders s headers = .ok next)
    : next.Consistent := by
  induction headers generalizing s with
  | nil =>
    cases applied
    exact consistent
  | cons header rest ih =>
    obtain ⟨middle, first, later⟩ := c.applyHeaders_cons applied
    exact ih (c.applyHeader_consistent consistent first) later

theorem Engine.apply_consistent (applied : c.apply s headers = .ok next) : next.Consistent := by
  obtain ⟨last, rounds, number, hash, rfl⟩ := c.apply_ok applied
  have kept := c.applyHeaders_consistent consistent rounds
  exact ⟨kept.tally, kept.meaningful, kept.single, kept.current⟩

omit consistent

/-- After any headers that apply to a checkpoint: a tally counts the votes on its account, which all
ask for the same, namely for what the account is not; no signer has two votes on one account; and
every vote is a signer's.
-/
theorem apply_tally_consistent (c : Engine) (number : UInt64) (hash : Hash) (signers : List Address)
    (headers : List Header) (s : Snapshot)
    (applied : c.apply (newSnapshot number hash signers) headers = .ok s)
    : (∀ address tally, s.tally address = some tally
        → tally.votes = s.votes.countP (·.address = address)
          ∧ (∀ vote ∈ s.votes, vote.address = address → vote.authorize = tally.authorize)
          ∧ (tally.authorize = true ↔ address ∉ s.signers))
      ∧ (s.votes.map fun vote => (vote.signer, vote.address)).Nodup
      ∧ ∀ vote ∈ s.votes, vote.signer ∈ s.signers := by
  have consistent := c.apply_consistent (newSnapshot_consistent number hash signers) applied
  refine ⟨?_, consistent.single, consistent.current⟩
  intro address tally found
  rw [consistent.tally, tallyOf] at found
  split at found
  · cases found
  · cases found
    refine ⟨rfl, ?_, decide_eq_true_iff⟩
    rintro vote member rfl
    exact consistent.meaningful vote member

/-- Three signers: two vote for a fourth, which then votes for a fifth. -/
def sampleHeaders : List Header :=
  [
    { number := 1, time := 1, coinbase := 4, nonce := nonceAuthVote },
    { number := 2, time := 2, coinbase := 4, nonce := nonceAuthVote },
    { number := 3, time := 4, coinbase := 5, nonce := nonceAuthVote }
  ]

theorem apply_tally_consistent_sample
    : ∃ s, sampleEngine.apply (newSnapshot 0 0 [1, 2, 3]) sampleHeaders = .ok s
      ∧ s.signers = {1, 2, 3, 4} ∧ s.tally 5 = some { authorize := true, votes := 1 }
      ∧ (s.votes.map fun vote => (vote.signer, vote.address)).Nodup := by
  obtain ⟨s, applied⟩ : ∃ s, sampleEngine.apply (newSnapshot 0 0 [1, 2, 3]) sampleHeaders = .ok s :=
    ⟨_, rfl⟩
  have consistent := apply_tally_consistent sampleEngine 0 0 [1, 2, 3] sampleHeaders s applied
  cases applied
  exact ⟨_, rfl, by decide, by decide, consistent.2.1⟩

end GoBinacoin.Clique
