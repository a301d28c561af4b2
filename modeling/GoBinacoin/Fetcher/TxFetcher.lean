import GoBinacoin.Common.Types
import Mathlib.Data.Finset.Card

/-! The transactions that a peer announces, and the limit on how many the fetcher tracks for it. -/

namespace GoBinacoin.Fetcher

def maxTxAnnounces : Nat := 4096

structure TxAnnounce where
  origin : String
  hashes : List Hash

/-- What the loop of `TxFetcher` reads and writes when it takes an announcement. A set that is nil
is absent.
-/
structure TxFetcher where
  waitlist : GoMap Hash (Finset String) := GoMap.empty
  waittime : GoMap Hash Int64 := GoMap.empty
  waitslots : GoMap String (Finset Hash) := GoMap.empty
  announces : GoMap String (Finset Hash) := GoMap.empty
  announced : GoMap Hash (Finset String) := GoMap.empty
  alternates : GoMap Hash (Finset String) := GoMap.empty

/-- A hash joins the set of a peer, which is made if there is none. -/
def track (slots : GoMap String (Finset Hash)) (peer : String) (hash : Hash)
    : GoMap String (Finset Hash) :=
  slots.set peer (insert hash ((slots peer).getD ∅))

namespace TxFetcher

/-- The body of the loop over the announced hashes. -/
def schedule (f : TxFetcher) (now : Hash → Int64) (origin : String) (hash : Hash)
    : TxFetcher :=
  match f.alternates hash with
  | some peers =>
      { f with
        alternates := f.alternates.set hash (insert origin peers)
        announces := track f.announces origin hash }
  | none =>
      match f.announced hash with
      | some peers =>
          { f with
            announced := f.announced.set hash (insert origin peers)
            announces := track f.announces origin hash }
      | none =>
          match f.waitlist hash with
          | some peers =>
              { f with
                waitlist := f.waitlist.set hash (insert origin peers)
                waitslots := track f.waitslots origin hash }
          | none =>
              { f with
                waitlist := f.waitlist.set hash {origin}
                waittime := f.waittime.set hash (now hash)
                waitslots := track f.waitslots origin hash }

def used (f : TxFetcher) (peer : String) : Nat :=
  ((f.waitslots peer).getD ∅).card + ((f.announces peer).getD ∅).card

/-- The hashes that are left of an announcement. -/
def admitted (f : TxFetcher) (ann : TxAnnounce) : List Hash :=
  let used := f.used ann.origin
  if used ≥ maxTxAnnounces then []
  else
    let want := used + ann.hashes.length
    if want > maxTxAnnounces then ann.hashes.take (want - maxTxAnnounces) else ann.hashes

/-- The case of `loop` for an announcement, with the time at which a hash is seen. The timers and
requests that it may start afterwards do not touch the sets of hashes.
-/
def notify (f : TxFetcher) (now : Hash → Int64) (ann : TxAnnounce) : TxFetcher :=
  (f.admitted ann).foldl (fun f hash => f.schedule now ann.origin hash) f

/-- All hashes that are tracked for a peer. -/
def tracked (f : TxFetcher) (peer : String) : Finset Hash :=
  (f.waitslots peer).getD ∅ ∪ (f.announces peer).getD ∅

/-- A hash that does not wait any more. -/
def queued (f : TxFetcher) (hash : Hash) : Bool :=
  (f.alternates hash).isSome || (f.announced hash).isSome

/-- The set that a hash joins for a peer. -/
def slots (f : TxFetcher) (peer : String) (hash : Hash) : Finset Hash :=
  if f.queued hash then (f.announces peer).getD ∅ else (f.waitslots peer).getD ∅

/-- The hashes that are not in their set yet. -/
def newHashes (f : TxFetcher) (peer : String) (hashes : List Hash) : Finset Hash :=
  hashes.toFinset.filter fun hash => hash ∉ f.slots peer hash

theorem isSome_set_of_some {υ : Type} {m : GoMap Hash υ} {hash : Hash} {old : υ}
    (present : m hash = some old) (new : υ) (other : Hash)
    : (m.set hash new other).isSome = (m other).isSome := by
  by_cases same : other = hash
  · rw [same, GoMap.set_self, present]
    rfl
  · rw [GoMap.set_of_ne _ _ same]

/-- What a round of the loop does: a hash joins its set, and none is queued that was not. -/
theorem schedule_cases (f : TxFetcher) (now : Hash → Int64) (peer : String) (hash : Hash)
    : (f.schedule now peer hash).queued = f.queued
      ∧ (f.queued hash = false
          ∧ (f.schedule now peer hash).waitslots = track f.waitslots peer hash
          ∧ (f.schedule now peer hash).announces = f.announces
        ∨ f.queued hash = true
          ∧ (f.schedule now peer hash).waitslots = f.waitslots
          ∧ (f.schedule now peer hash).announces = track f.announces peer hash) := by
  unfold schedule
  split
  · rename_i found
    exact ⟨funext fun other => by simp [queued, isSome_set_of_some found],
      .inr ⟨by simp [queued, found], rfl, rfl⟩⟩
  rename_i notFetching
  split
  · rename_i found
    exact ⟨funext fun other => by simp [queued, isSome_set_of_some found],
      .inr ⟨by simp [queued, found], rfl, rfl⟩⟩
  rename_i notQueued
  have waits : f.queued hash = false := by simp [queued, notFetching, notQueued]
  split
  · exact ⟨rfl, .inl ⟨waits, rfl, rfl⟩⟩
  · exact ⟨rfl, .inl ⟨waits, rfl, rfl⟩⟩

end TxFetcher

/-- A hash joins its set. -/
structure Joins (peer : String) (hash : Hash) (f f' : TxFetcher) : Prop where
  used : f'.used peer = f.used peer + if hash ∈ f.slots peer hash then 0 else 1
  slots : ∀ other, other ∈ f'.slots peer other ↔ other = hash ∨ other ∈ f.slots peer other
  tracked : f'.tracked peer = insert hash (f.tracked peer)

variable (f : TxFetcher) (now : Hash → Int64)

/-- One announced hash is tracked afterwards, whichever branch takes it. -/
theorem TxFetcher.schedule_joins (peer : String) (hash : Hash)
    : Joins peer hash f (f.schedule now peer hash) := by
  have inserted (set : Finset Hash)
      : (insert hash set).card = set.card + if hash ∈ set then 0 else 1 := by
    split_ifs with member
    · rw [Finset.insert_eq_of_mem member]
      rfl
    · exact Finset.card_insert_of_notMem member
  obtain ⟨same, ⟨stage, waitslots, announces⟩ | ⟨stage, waitslots, announces⟩⟩ :=
    f.schedule_cases now peer hash
  all_goals
    refine ⟨?_, fun other => ?_, by simp [tracked, waitslots, announces, track]⟩
    · simp only [used, slots, stage, waitslots, announces, track, GoMap.set_self, Option.getD_some,
        inserted, if_true, Bool.false_eq_true, if_false]
      omega
    · by_cases isHash : other = hash
      · simp [isHash, slots, same, stage, waitslots, announces, track]
      · simp only [slots, same, waitslots, announces, track, GoMap.set_self, Option.getD_some]
        split_ifs <;> simp [isHash]

/-- The loop counts each new hash once; induction on the hashes. -/
theorem TxFetcher.foldl_schedule (peer : String) (hashes : List Hash)
    : let f' := hashes.foldl (fun f hash => f.schedule now peer hash) f
      f'.used peer = f.used peer + (f.newHashes peer hashes).card
      ∧ f'.tracked peer = hashes.toFinset ∪ f.tracked peer := by
  induction hashes generalizing f with
  | nil => simp [newHashes]
  | cons hash rest ih =>
    have joins := f.schedule_joins now peer hash
    obtain ⟨used, tracked⟩ := ih (f.schedule now peer hash)
    refine ⟨?_, ?_⟩
    · rw [List.foldl_cons, used, joins.used, Nat.add_assoc]
      congr 1
      have later : (f.schedule now peer hash).newHashes peer rest
          = (f.newHashes peer rest).erase hash := by
        ext other
        simp only [newHashes, Finset.mem_filter, joins.slots other, Finset.mem_erase]
        tauto
      have all : f.newHashes peer (hash :: rest)
          = if hash ∈ f.slots peer hash then f.newHashes peer rest
            else insert hash (f.newHashes peer rest) := by
        rw [newHashes, List.toFinset_cons, Finset.filter_insert, newHashes]
        split_ifs <;> rfl
      rw [later, all]
      split_ifs with old
      · rw [Finset.erase_eq_of_notMem (by simp [newHashes, old])]
        omega
      · have new : insert hash (f.newHashes peer rest)
            = insert hash ((f.newHashes peer rest).erase hash) := by
          ext other
          simp only [Finset.mem_insert, Finset.mem_erase]
          tauto
        rw [new, Finset.card_insert_of_notMem (by simp), Nat.add_comm]
    · rw [List.foldl_cons, tracked, joins.tracked]
      simp

/-- Both halves hold exactly if the announcement fits whole, the peer is at the limit, or what the
cut leaves is not too much and no less than what fits, not counting hashes that are known.
-/
theorem notify_within_limit_iff (f : TxFetcher) (now : Hash → Int64) (ann : TxAnnounce)
    (below : f.used ann.origin ≤ maxTxAnnounces)
    : let room := maxTxAnnounces - f.used ann.origin
      let cut := f.used ann.origin + ann.hashes.length - maxTxAnnounces
      (f.notify now ann).used ann.origin ≤ maxTxAnnounces
        ∧ (∀ hash ∈ ann.hashes.take (min ann.hashes.length room),
          hash ∈ (f.notify now ann).tracked ann.origin)
      ↔ ann.hashes.length ≤ room ∨ room = 0
        ∨ (f.newHashes ann.origin (ann.hashes.take cut)).card ≤ room
          ∧ ∀ hash ∈ ann.hashes.take room,
            hash ∈ ann.hashes.take cut ∨ hash ∈ f.tracked ann.origin := by
  intro room cut
  obtain ⟨used, tracked⟩ := f.foldl_schedule now ann.origin (f.admitted ann)
  rw [← TxFetcher.notify] at used tracked
  simp only [used, tracked, Finset.mem_union, List.mem_toFinset]
  by_cases full : room = 0
  · have none : f.admitted ann = [] := if_pos (by omega)
    simpa [none, full, TxFetcher.newHashes] using below
  by_cases whole : ann.hashes.length ≤ room
  · have all : f.admitted ann = ann.hashes := by
      unfold TxFetcher.admitted
      dsimp only
      rw [if_neg (by omega), if_neg (by omega)]
    have most : (f.newHashes ann.origin ann.hashes).card ≤ ann.hashes.length :=
      (Finset.card_filter_le _ _).trans (List.toFinset_card_le _)
    rw [all]
    exact iff_of_true ⟨by omega, fun hash member => .inl (List.mem_of_mem_take member)⟩ (.inl whole)
  have left : f.admitted ann = ann.hashes.take cut := by
    unfold TxFetcher.admitted
    dsimp only
    rw [if_neg (by omega), if_pos (by omega)]
  simp only [whole, full, false_or, left, Nat.min_eq_right (Nat.le_of_not_le whole)]
  exact and_congr_left' (by omega)

/-- An announcement of different hashes. -/
def manyHashes (n : Nat) : TxAnnounce := ⟨"peer", (List.range n).map (BitVec.ofNat 256)⟩

theorem nodup_manyHashes {n : Nat} (small : n < 2 ^ 256) : (manyHashes n).hashes.Nodup := by
  refine List.Nodup.map_on ?_ List.nodup_range
  intro a aMem b bMem same
  have values := congrArg BitVec.toNat same
  rw [List.mem_range] at aMem bMem
  rwa [BitVec.toNat_ofNat, BitVec.toNat_ofNat, Nat.mod_eq_of_lt (aMem.trans small),
    Nat.mod_eq_of_lt (bMem.trans small)] at values

theorem length_manyHashes (n : Nat) : (manyHashes n).hashes.length = n := by simp [manyHashes]

theorem mem_manyHashes {m n : Nat} {hash : Hash} (le : m ≤ n)
    (member : hash ∈ (manyHashes m).hashes)
    : hash ∈ (manyHashes n).hashes := by
  simp only [manyHashes, List.mem_map, List.mem_range] at member ⊢
  obtain ⟨i, low, same⟩ := member
  exact ⟨i, low.trans_le le, same⟩

/-- Of a first announcement of more than twice the limit, more hashes than the limit are taken. -/
theorem notify_passes_limit
    : maxTxAnnounces < (TxFetcher.notify {} (fun _ => 0) (manyHashes 8193)).used "peer" := by
  have admitted : TxFetcher.admitted {} (manyHashes 8193) = (manyHashes 4097).hashes := by
    have none : TxFetcher.used {} (manyHashes 8193).origin = 0 := rfl
    rw [TxFetcher.admitted, none, length_manyHashes, if_neg (by decide)]
    dsimp only
    rw [if_pos (by decide), manyHashes, manyHashes, ← List.map_take, List.take_range,
      show min (0 + 8193 - maxTxAnnounces) 8193 = 4097 by decide]
  obtain ⟨used, -⟩ := TxFetcher.foldl_schedule {} (fun _ => 0) "peer" (manyHashes 4097).hashes
  have all : TxFetcher.newHashes {} "peer" (manyHashes 4097).hashes
      = (manyHashes 4097).hashes.toFinset :=
    Finset.filter_true_of_mem fun hash _ => Finset.notMem_empty hash
  rw [TxFetcher.notify, show (manyHashes 8193).origin = "peer" from rfl, admitted, used, all,
    List.toFinset_card_of_nodup (nodup_manyHashes (by decide)), length_manyHashes]
  decide

/-- The peer waits for some hashes. -/
def waitingFor (hashes : Finset Hash) : TxFetcher :=
  { waitslots := GoMap.empty.set "peer" hashes }

section

variable {hashes : Finset Hash} {hash : Hash}

theorem used_waitingFor : (waitingFor hashes).used "peer" = hashes.card := by
  simp [waitingFor, TxFetcher.used, GoMap.empty]

theorem slots_waitingFor : (waitingFor hashes).slots "peer" hash = hashes := by
  simp [waitingFor, TxFetcher.slots, TxFetcher.queued, GoMap.empty]

theorem tracked_waitingFor : (waitingFor hashes).tracked "peer" = hashes := by
  simp [waitingFor, TxFetcher.tracked, GoMap.empty]

end

/-- The peer waits for 4095 hashes and announces ten of them again, of which one is cut off. -/
theorem notify_within_limit_iff_again
    : let f := waitingFor (manyHashes 4095).hashes.toFinset
      f.used "peer" = 4095
      ∧ (f.notify (fun _ => 0) (manyHashes 10)).used "peer" ≤ maxTxAnnounces
      ∧ ∀ hash ∈ (manyHashes 10).hashes.take (min 10 (maxTxAnnounces - 4095)),
        hash ∈ (f.notify (fun _ => 0) (manyHashes 10)).tracked "peer" := by
  intro f
  have used : f.used "peer" = 4095 := by
    rw [used_waitingFor, List.toFinset_card_of_nodup (nodup_manyHashes (by decide)),
      length_manyHashes]
  have known (hash : Hash) (member : hash ∈ (manyHashes 10).hashes)
      : hash ∈ (manyHashes 4095).hashes.toFinset :=
    List.mem_toFinset.mpr (mem_manyHashes (by decide) member)
  have exact := notify_within_limit_iff f (fun _ => 0) (manyHashes 10)
  simp only [show (manyHashes 10).origin = "peer" from rfl, used, length_manyHashes] at exact
  refine ⟨used, (exact (by decide)).mpr (.inr (.inr ⟨?_, fun hash member => .inr ?_⟩))⟩
  · rw [TxFetcher.newHashes, Finset.filter_false_of_mem]
    · exact Nat.zero_le _
    · intro hash member
      rw [slots_waitingFor, not_not]
      exact known hash (List.mem_of_mem_take (List.mem_toFinset.mp member))
  · rw [tracked_waitingFor]
    exact known hash (List.mem_of_mem_take member)

end GoBinacoin.Fetcher
