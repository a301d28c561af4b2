import GoBinacoin.Clique.Snapshot

/-! The recent signers of a snapshot: they hold exactly the blocks that a signer has to wait for, so
nobody signs twice within half of the signers' number. `verifySeal` writes the same rule with a
subtraction that wraps near the genesis block.
-/

namespace GoBinacoin.Clique

open Types

/-- The recent signers at block `now`, with blocks from after `start` to `last`: their blocks lie
within the last `width`, and those within the last `depth` are all there, with their signers.
-/
structure Covers (recents : Finmap fun _ : UInt64 => Address) (signedBy : Nat → Option Address)
    (start last now width depth : Nat) : Prop where
  keys : ∀ block ∈ recents.keys,
    start < block.toNat ∧ block.toNat ≤ last ∧ now < block.toNat + width
  complete : ∀ block, start < block → block ≤ last → now < block + depth
    → recents.lookup (UInt64.ofNat block) = signedBy block

/-- What a snapshot at a block knows: the recent signers of the last `limit` blocks at most, and of
all those that the next signer is compared with.
-/
def Snapshot.Window (s : Snapshot) (signedBy : Nat → Option Address) (start last : Nat) : Prop :=
  Covers s.recents signedBy start last last s.limit (s.limit - 1)

theorem toNat_ofNat_of_lt {n : Nat} (small : n < 2 ^ 64) : (UInt64.ofNat n).toNat = n := by
  rw [UInt64.toNat_ofNat', Nat.mod_eq_of_lt small]

theorem ofNat_ne {n m : Nat} (small : n < 2 ^ 64) (small' : m < 2 ^ 64) (ne : n ≠ m)
    : UInt64.ofNat n ≠ UInt64.ofNat m := by
  intro same
  have := congrArg UInt64.toNat same
  rw [toNat_ofNat_of_lt small, toNat_ofNat_of_lt small'] at this
  exact ne this

theorem ofNat_sub_ofNat {n m : Nat} (small : n < 2 ^ 64) (le : m ≤ n)
    : UInt64.ofNat n - UInt64.ofNat m = UInt64.ofNat (n - m) := by
  have order : UInt64.ofNat m ≤ UInt64.ofNat n := by
    rw [UInt64.le_iff_toNat_le, toNat_ofNat_of_lt small, toNat_ofNat_of_lt (by omega)]
    exact le
  apply UInt64.toNat_inj.mp
  rw [UInt64.toNat_sub_of_le _ _ order, toNat_ofNat_of_lt small, toNat_ofNat_of_lt (by omega),
    toNat_ofNat_of_lt (by omega)]

namespace Covers

variable {recents : Finmap fun _ : UInt64 => Address} {signedBy : Nat → Option Address}
variable {start last now width depth : Nat}

theorem mono {now' width' depth' : Nat}
    (covers : Covers recents signedBy start last now width depth)
    (wider : now' + width ≤ now + width') (shallower : now + depth' ≤ now' + depth)
    : Covers recents signedBy start last now' width' depth' := by
  refine ⟨?_, ?_⟩
  · intro block member
    obtain ⟨after, upto, recent⟩ := covers.keys block member
    exact ⟨after, upto, by omega⟩
  · intro block after upto recent
    exact covers.complete block after upto (by omega)

/-- Dropping the oldest entry makes the window one block shorter. -/
theorem cut {limit : Nat} (covers : Covers recents signedBy start last now width depth)
    (small : now < 2 ^ 64) (before : last ≤ now) (width_le : width ≤ limit + 1)
    (depth_le : depth ≤ limit)
    : Covers
        (if (UInt64.ofNat now).toNat ≥ limit then
          recents.erase (UInt64.ofNat now - UInt64.ofNat limit)
        else
          recents)
        signedBy start last now limit depth := by
  rw [toNat_ofNat_of_lt small]
  split
  · rename_i reached
    rw [ofNat_sub_ofNat small reached]
    refine ⟨?_, ?_⟩
    · intro block member
      rw [Finmap.keys_erase, Finset.mem_erase] at member
      obtain ⟨after, upto, recent⟩ := covers.keys block member.2
      refine ⟨after, upto, ?_⟩
      have apart : block.toNat ≠ now - limit := fun same =>
        member.1 (UInt64.toNat_inj.mp (same.trans (toNat_ofNat_of_lt (by omega)).symm))
      omega
    · intro block after upto recent
      have apart := ofNat_ne (n := block) (m := now - limit) (by omega) (by omega) (by omega)
      rw [Finmap.lookup_erase_ne apart]
      exact covers.complete block after upto recent
  · refine ⟨fun block member => ?_, covers.complete⟩
    obtain ⟨after, upto, recent⟩ := covers.keys block member
    exact ⟨after, upto, by omega⟩

/-- The signer of the next block joins the window. -/
theorem insert {signer : Address}
    (covers : Covers recents signedBy start last (last + 1) width depth)
    (small : last + 1 < 2 ^ 64) (positive : 0 < width) (later : start ≤ last)
    (signed : signedBy (last + 1) = some signer)
    : Covers (recents.insert (UInt64.ofNat (last + 1)) signer) signedBy start (last + 1) (last + 1)
        width depth := by
  refine ⟨?_, ?_⟩
  · intro block member
    rw [Finmap.mem_keys, Finmap.mem_insert] at member
    rcases member with rfl | member
    · rw [toNat_ofNat_of_lt small]
      exact ⟨by omega, le_rfl, by omega⟩
    · obtain ⟨after, upto, recent⟩ := covers.keys block (Finmap.mem_keys.mpr member)
      exact ⟨after, by omega, recent⟩
  · intro block after upto recent
    by_cases newest : block = last + 1
    · rw [newest, Finmap.lookup_insert, signed]
    · rw [Finmap.lookup_insert_of_ne _ (ofNat_ne (by omega) small newest)]
      exact covers.complete block after (by omega) recent

end Covers

variable (s : Snapshot) (address : Address)

theorem Snapshot.limit_insert
    : s.limit ≤ ({ s with signers := insert address s.signers } : Snapshot).limit
      ∧ ({ s with signers := insert address s.signers } : Snapshot).limit ≤ s.limit + 1 := by
  have more := Finset.card_le_card (Finset.subset_insert address s.signers)
  have one := Finset.card_insert_le address s.signers
  simp only [limit]
  omega

theorem Snapshot.limit_erase
    : ({ s with signers := s.signers.erase address } : Snapshot).limit ≤ s.limit
      ∧ s.limit ≤ ({ s with signers := s.signers.erase address } : Snapshot).limit + 1 := by
  have less := Finset.card_erase_le (s := s.signers) (a := address)
  have one := Finset.pred_card_le_card_erase (s := s.signers) (a := address)
  simp only [limit]
  omega

/-- However the round ends, the recent signers fit the number of signers after it. -/
theorem Snapshot.settle_window {s : Snapshot} {signedBy : Nat → Option Address} {start last : Nat}
    (covers : Covers s.recents signedBy start last last s.limit s.limit) (small : last < 2 ^ 64)
    (address : Address)
    : (s.settle (UInt64.ofNat last) address).Window signedBy start last := by
  unfold Window
  obtain ⟨votes, tally, same | added | removed⟩ := s.settle_cases (UInt64.ofNat last) address
  · rw [same]
    exact covers.mono le_rfl (Nat.add_le_add_left (Nat.sub_le _ _) _)
  · rw [added]
    obtain ⟨more, one⟩ := s.limit_insert address
    exact covers.mono (Nat.add_le_add_left more _)
      (Nat.add_le_add_left (Nat.sub_le_of_le_add one) _)
  · rw [removed, dropRecent_recents]
    obtain ⟨less, one⟩ := s.limit_erase address
    have narrower := (covers.mono le_rfl (Nat.add_le_add_left less _)).cut small le_rfl one le_rfl
    exact narrower.mono le_rfl (Nat.add_le_add_left (Nat.sub_le _ _) _)

theorem Snapshot.mem_signedRecently {s : Snapshot} {signer : Address} {block : UInt64}
    (found : s.recents.lookup block = some signer)
    : s.signedRecently signer = true :=
  decide_eq_true ⟨block, Finmap.mem_keys.mpr (Finmap.mem_of_lookup_eq_some found), found⟩

theorem Snapshot.Window.dropped {s : Snapshot} {signedBy : Nat → Option Address} {start last : Nat}
    (window : s.Window signedBy start last) (small : last + 1 < 2 ^ 64)
    : Covers (s.dropRecent (UInt64.ofNat (last + 1))).recents signedBy start last (last + 1)
        s.limit s.limit := by
  rw [dropRecent_recents]
  have next : Covers s.recents signedBy start last (last + 1) (s.limit + 1) s.limit :=
    window.mono (by omega) (by omega)
  exact next.cut small (Nat.le_succ last) le_rfl le_rfl

section Round

variable (c : Engine) {s next : Snapshot} {header : Header}
variable {signedBy : Nat → Option Address} {start last : Nat}

/-- Who signs a block signed none of those that the window asks for. -/
theorem Engine.applyHeader_fresh (window : s.Window signedBy start last) (small : last + 1 < 2 ^ 64)
    (number : UInt64.ofNat header.number = UInt64.ofNat (last + 1))
    (applied : c.applyHeader s header = .ok next)
    : ∃ signer, c.ecrecover header = some signer
      ∧ ∀ block, start < block → block ≤ last → last + 1 ≤ block + s.signers.card / 2
        → signedBy block ≠ some signer := by
  obtain ⟨signer, recovered, -, notRecent, -⟩ := c.applyHeader_ok applied
  refine ⟨signer, recovered, ?_⟩
  intro block after upto near signed
  rw [number] at notRecent
  have found := (window.dropped small).complete block after upto (by unfold Snapshot.limit; omega)
  exact Bool.false_ne_true (notRecent.symm.trans (Snapshot.mem_signedRecently (found.trans signed)))

theorem Engine.applyHeader_window (window : s.Window signedBy start last) (later : start ≤ last)
    (small : last + 1 < 2 ^ 64) (number : UInt64.ofNat header.number = UInt64.ofNat (last + 1))
    (signed : signedBy (last + 1) = c.ecrecover header)
    (applied : c.applyHeader s header = .ok next)
    : next.Window signedBy start (last + 1) := by
  obtain ⟨signer, recovered, -, -, recorded⟩ := c.applyHeader_ok applied
  have covers := (window.dropped small).insert small (Nat.succ_pos _) later (signed.trans recovered)
  obtain ⟨votes, tally, rfl⟩ := record_ok recorded
  rw [number]
  refine Snapshot.settle_window ?_ small header.coinbase
  simpa only [Snapshot.startEpoch_dropRecent, Snapshot.limit, Snapshot.dropRecent_signers,
    Snapshot.startEpoch_signers] using covers

/-- The headers have the numbers after `last`, and `signedBy` names their signers. -/
def Engine.Numbered (signedBy : Nat → Option Address) (last : Nat) (headers : List Header) : Prop :=
  ∀ i header, headers[i]? = some header
    → UInt64.ofNat header.number = UInt64.ofNat (last + 1 + i)
      ∧ signedBy (last + 1 + i) = c.ecrecover header

theorem Engine.Numbered.tail {headers : List Header}
    (numbered : c.Numbered signedBy last (header :: headers))
    : c.Numbered signedBy (last + 1) headers := by
  intro i other found
  have := numbered (i + 1) other (by simpa using found)
  rwa [show last + 1 + (i + 1) = last + 1 + 1 + i by omega] at this

/-- The window holds after every accepted header, by induction on the headers. -/
theorem Engine.applyHeaders_window {headers : List Header} (window : s.Window signedBy start last)
    (later : start ≤ last) (small : last + headers.length < 2 ^ 64)
    (numbered : c.Numbered signedBy last headers) (applied : c.applyHeaders s headers = .ok next)
    : next.Window signedBy start (last + headers.length) := by
  induction headers generalizing s last with
  | nil =>
    cases applied
    exact window
  | cons header rest ih =>
    obtain ⟨middle, first, others⟩ := c.applyHeaders_cons applied
    obtain ⟨number, signed⟩ := numbered 0 header rfl
    rw [List.length_cons] at small ⊢
    have moved := c.applyHeader_window window later (by omega) number signed first
    rw [show last + (rest.length + 1) = last + 1 + rest.length by omega] at small ⊢
    exact ih moved (by omega) small numbered.tail others

end Round

section Runs

variable (c : Engine)

/-- Who signed the block of a number, of headers after block `start`. -/
def Engine.signedBy (start : Nat) (headers : List Header) (block : Nat) : Option Address :=
  (headers[block - start - 1]?).bind c.ecrecover

theorem Engine.signedBy_eq (start : Nat) {headers : List Header} {i : Nat} {header : Header}
    (found : headers[i]? = some header)
    : c.signedBy start headers (start + 1 + i) = c.ecrecover header := by
  rw [signedBy, show start + 1 + i - start - 1 = i by omega, found, Option.bind_some]

theorem newSnapshot_window (number : UInt64) (hash : Hash) (signers : List Address)
    (signedBy : Nat → Option Address) (start : Nat)
    : (newSnapshot number hash signers).Window signedBy start start := by
  refine ⟨?_, ?_⟩
  · intro block member
    exact absurd member (Finset.notMem_empty block)
  · intro block after upto
    omega

/-- The rounds of an application from a checkpoint, and the number that they lead to. -/
theorem Engine.apply_checkpoint {number : UInt64} {hash : Hash} {signers : List Address}
    {headers : List Header} {s : Snapshot} (small : number.toNat + headers.length < 2 ^ 64)
    (applied : c.apply (newSnapshot number hash signers) headers = .ok s)
    : ∃ last, c.applyHeaders (newSnapshot number hash signers) headers = .ok last
      ∧ last.Window (c.signedBy number.toNat headers) number.toNat (number.toNat + headers.length)
      ∧ s.signers = last.signers ∧ s.recents = last.recents
      ∧ s.number.toNat = number.toNat + headers.length := by
  rcases headers with _ | ⟨first, rest⟩
  · cases applied
    exact ⟨_, rfl, newSnapshot_window .., rfl, rfl, rfl⟩
  obtain ⟨linked, start, last, rounds, rfl⟩ := c.apply_cons_ok.mp applied
  have numbered : c.Numbered (c.signedBy number.toNat (first :: rest)) number.toNat
      (first :: rest) := by
    intro i header found
    refine ⟨number_of_contiguous linked ?_ i header found, c.signedBy_eq _ found⟩
    intro head same
    cases same
    rw [start, UInt64.ofNat_add, UInt64.ofNat_toNat]
    rfl
  refine ⟨last, rounds, c.applyHeaders_window (newSnapshot_window ..) le_rfl small numbered
    rounds, rfl, rfl, ?_⟩
  rw [c.applyHeaders_number rounds, UInt64.toNat_add, UInt64.toNat_ofNat', Nat.add_mod_mod,
    Nat.mod_eq_of_lt]
  · rfl
  · exact small

/-- In every sequence of headers that applies to a genesis snapshot, the signer of a block signed
none of as many blocks before it as half the signers are, and the recent signers are those of so
many blocks and one. A list of headers is a slice, which has less than 2^64 elements.
-/
theorem apply_spam_protected (hash : Hash) (signers : List Address) (headers : List Header)
    (s : Snapshot) (fits : headers.length < 2 ^ 64)
    (applied : c.apply (newSnapshot 0 hash signers) headers = .ok s)
    : (∀ earlier header rest, headers = earlier ++ header :: rest
        → ∃ before signer, c.apply (newSnapshot 0 hash signers) earlier = .ok before
          ∧ c.ecrecover header = some signer
          ∧ ∀ j other, earlier[j]? = some other
            → earlier.length - j ≤ before.signers.card / 2 → c.ecrecover other ≠ some signer)
      ∧ s.number.toNat = headers.length
      ∧ ∀ block ∈ s.recents.keys,
          block.toNat ≤ headers.length
          ∧ headers.length < block.toNat + (s.signers.card / 2 + 1) := by
  have zero : (0 : UInt64).toNat = 0 := rfl
  obtain ⟨last, rounds, window, signersSame, recentsSame, number⟩ :=
    c.apply_checkpoint (by rw [zero]; omega) applied
  rw [zero, Nat.zero_add] at window number
  refine ⟨?_, number, ?_⟩
  · rintro earlier header rest rfl
    rw [List.length_append, List.length_cons] at fits
    obtain ⟨before, middle, after, prior, roundsBefore, sameSigners, round⟩ := c.apply_split applied
    obtain ⟨middle', rounds', windowBefore, -, -, -⟩ :=
      c.apply_checkpoint (by rw [zero]; omega) prior
    cases roundsBefore.symm.trans rounds'
    rw [zero, Nat.zero_add] at windowBefore
    have placed : UInt64.ofNat header.number = UInt64.ofNat (earlier.length + 1) := by
      obtain ⟨linked, first⟩ := c.apply_linked applied
      have numbers : UInt64.ofNat header.number = UInt64.ofNat (0 + 1 + earlier.length) :=
        Engine.number_of_contiguous linked (fun head found => (first head found).trans rfl)
          earlier.length header (by simp)
      rwa [Nat.add_comm] at numbers
    obtain ⟨signer, recovered, fresh⟩ := c.applyHeader_fresh windowBefore (by omega) placed round
    refine ⟨before, signer, prior, recovered, ?_⟩
    intro j other found near
    have within := (List.getElem?_eq_some_iff.mp found).1
    have signed := c.signedBy_eq 0 found
    rw [← signed]
    rw [sameSigners] at near
    exact fresh (0 + 1 + j) (by omega) (by omega) (by omega)
  · intro block member
    rw [recentsSame] at member
    obtain ⟨-, upto, recent⟩ := window.keys block member
    rw [signersSame]
    exact ⟨upto, recent⟩

end Runs

/-- Three signers: two vote for a fourth, which signs the next block. -/
def growingHeaders : List Header :=
  [
    { number := 1, time := 1, coinbase := 4, nonce := nonceAuthVote },
    { number := 2, time := 2, coinbase := 4, nonce := nonceAuthVote },
    { number := 3, time := 4 }
  ]

theorem apply_spam_protected_growing
    : ∃ s, sampleEngine.apply (newSnapshot 0 0 [1, 2, 3]) growingHeaders = .ok s
      ∧ s.recents.keys = {1, 2, 3} ∧ s.number.toNat = 3
      ∧ ∀ block ∈ s.recents.keys, block.toNat ≤ 3 ∧ 3 < block.toNat + (s.signers.card / 2 + 1) := by
  obtain ⟨s, applied⟩
    : ∃ s, sampleEngine.apply (newSnapshot 0 0 [1, 2, 3]) growingHeaders = .ok s := ⟨_, rfl⟩
  have shown := apply_spam_protected sampleEngine 0 [1, 2, 3] growingHeaders s (by decide) applied
  refine ⟨s, applied, ?_, shown.2⟩
  cases applied
  decide

end GoBinacoin.Clique
