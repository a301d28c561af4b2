import GoBinacoin.Lib.Program
import GoBinacoin.Types.Header
import Mathlib.Data.Finmap

/-! The snapshots of Clique: who may sign, who signed lately, and the votes on signers, as headers
are applied one after the other; and the check of a header's signer against a snapshot.
-/

namespace GoBinacoin.Clique

open Types Program

structure Vote where
  signer : Address
  block : UInt64
  address : Address
  authorize : Bool
  deriving DecidableEq

structure Tally where
  authorize : Bool := false
  votes : Nat := 0
  deriving DecidableEq

/-- `Snapshot` without its settings. -/
structure Snapshot where
  number : UInt64
  hash : Hash
  signers : Finset Address
  recents : Finmap fun _ : UInt64 => Address := ∅
  votes : List Vote := []
  tally : GoMap Address Tally := GoMap.empty

/-- The engine, with the functions of headers that are taken from outside: their hash, and the
account that signed them. `New` replaces an epoch of no length by the default.
-/
structure Engine where
  epoch : UInt64
  epoch_ne_zero : epoch ≠ 0
  fakeDiff : Bool := false
  hash : Header → Hash
  ecrecover : Header → Option Address

inductive Err where
  | unknownBlock
  | invalidVotingChain
  | unauthorizedSigner
  | recentlySigned
  | invalidVote
  | wrongDifficulty
  /-- The signature is missing, or no account is recovered from it. -/
  | ecrecover
  deriving DecidableEq

def nonceAuthVote : BitVec 64 := 0xffffffffffffffff

def nonceDropVote : BitVec 64 := 0

def diffInTurn : Nat := 2

def diffNoTurn : Nat := 1

/-- The account that a list of signers starts from: a map, so each counts once. -/
def newSnapshot (number : UInt64) (hash : Hash) (signers : List Address) : Snapshot :=
  { number := number, hash := hash, signers := signers.toFinset }

namespace Snapshot

def validVote (s : Snapshot) (address : Address) (authorize : Bool) : Bool :=
  let signer := decide (address ∈ s.signers)
  signer && !authorize || !signer && authorize

/-- A vote that makes sense is counted. -/
def cast (s : Snapshot) (address : Address) (authorize : Bool) : Snapshot × Bool :=
  if !s.validVote address authorize then
    (s, false)
  else
    let tally : Tally :=
      match s.tally address with
      | some old => { old with votes := old.votes + 1 }
      | none => { authorize := authorize, votes := 1 }
    ({ s with tally := s.tally.set address tally }, true)

/-- A vote is taken off the tally, if it was counted there. -/
def uncast (s : Snapshot) (address : Address) (authorize : Bool) : Snapshot × Bool :=
  match s.tally address with
  | none => (s, false)
  | some tally =>
      if tally.authorize ≠ authorize then
        (s, false)
      else if tally.votes > 1 then
        ({ s with tally := s.tally.set address { tally with votes := tally.votes - 1 } }, true)
      else
        ({ s with tally := s.tally.delete address }, true)

/-- `len(Signers)/2 + 1`; the length of a map fits its conversion to 64 bits. -/
def limit (s : Snapshot) : Nat := s.signers.card / 2 + 1

/-- The oldest recent signer may sign again. -/
def dropRecent (s : Snapshot) (number : UInt64) : Snapshot :=
  if number.toNat ≥ s.limit then
    { s with recents := s.recents.erase (number - UInt64.ofNat s.limit) }
  else
    s

def signedRecently (s : Snapshot) (signer : Address) : Bool :=
  decide (∃ block ∈ s.recents.keys, s.recents.lookup block = some signer)

/-- The previous vote of a signer on an account, with its count. -/
def discardPrevious (s : Snapshot) (signer address : Address) : Snapshot :=
  match s.votes.find? fun vote => vote.signer = signer ∧ vote.address = address with
  | none => s
  | some vote =>
      let s := (s.uncast vote.address vote.authorize).1
      { s with votes := s.votes.eraseP fun vote => vote.signer = signer ∧ vote.address = address }

/-- Count the vote of a header, and keep it in the list. -/
def castVote (s : Snapshot) (signer : Address) (number : UInt64) (address : Address)
    (authorize : Bool) : Snapshot :=
  let (s, counted) := s.cast address authorize
  if counted then
    { s with votes := s.votes ++
        [{ signer := signer, block := number, address := address, authorize := authorize }] }
  else
    s

/-- The votes that an account cast, with their counts; the rest of the list is still to be scanned.
-/
def discardCast (s : Snapshot) (signer : Address) : List Vote → Snapshot
  | [] => { s with votes := [] }
  | vote :: rest =>
      if vote.signer = signer then
        (s.uncast vote.address vote.authorize).1.discardCast signer rest
      else
        let s := s.discardCast signer rest
        { s with votes := vote :: s.votes }

/-- The account is no signer any more: the window of recent signers may shrink, and its votes end.
-/
def deauthorize (s : Snapshot) (number : UInt64) (address : Address) : Snapshot :=
  let s := { s with signers := s.signers.erase address }
  let s := s.dropRecent number
  s.discardCast address s.votes

/-- A vote that passed changes the signers, and ends the votes on the account. -/
def settle (s : Snapshot) (number : UInt64) (address : Address) : Snapshot :=
  let tally := (s.tally address).getD {}
  if tally.votes > s.signers.card / 2 then
    let s :=
      if tally.authorize then
        { s with signers := insert address s.signers }
      else
        s.deauthorize number address
    { s with
      votes := s.votes.filter fun vote => vote.address ≠ address
      tally := s.tally.delete address }
  else
    s

/-- Votes end with an epoch. -/
def startEpoch (s : Snapshot) (epoch number : UInt64) : Snapshot :=
  if number % epoch = 0 then { s with votes := [], tally := GoMap.empty } else s

/-- Where a signer stands among the signers in ascending order, or their number if it is none. Bytes
are compared as the numbers that they write.
-/
def offset (s : Snapshot) (signer : Address) : Nat :=
  if signer ∈ s.signers then (s.signers.filter (·.toNat < signer.toNat)).card else s.signers.card

/-- Whether a signer is the one whose turn it is. -/
def inturn (s : Snapshot) (number : UInt64) (signer : Address) : Bool :=
  number.toNat % s.signers.card = s.offset signer

end Snapshot

/-- What a header votes for. -/
def voteOf (nonce : BitVec 64) : Except Err Bool :=
  if nonce = nonceAuthVote then .ok true
  else if nonce = nonceDropVote then .ok false
  else .error .invalidVote

namespace Engine

variable (c : Engine)

/-- The account that signed a header, if a snapshot allows it to. -/
def authorizedSigner (s : Snapshot) (header : Header) : Except Err Address :=
  match c.ecrecover header with
  | none => .error .ecrecover
  | some signer =>
      if signer ∉ s.signers then .error .unauthorizedSigner
      else if s.signedRecently signer then .error .recentlySigned
      else .ok signer

/-- The rest of a round, once the signer is known. -/
def record (s : Snapshot) (header : Header) (signer : Address) : Except Err Snapshot := do
  let number := UInt64.ofNat header.number
  let s := { s with recents := s.recents.insert number signer }
  let s := s.discardPrevious signer header.coinbase
  let authorize ← voteOf header.nonce
  let s := s.castVote signer number header.coinbase authorize
  return s.settle number header.coinbase

/-- One round of `apply`. -/
def applyHeader (s : Snapshot) (header : Header) : Except Err Snapshot := do
  let number := UInt64.ofNat header.number
  let s := (s.startEpoch c.epoch number).dropRecent number
  let signer ← c.authorizedSigner s header
  record s header signer

def applyHeaders (s : Snapshot) : List Header → Except Err Snapshot
  | [] => .ok s
  | header :: rest => do
      let s ← c.applyHeader s header
      applyHeaders s rest

/-- Each header is the child of the one before. -/
def contiguous : List Header → Bool
  | header :: next :: rest =>
      UInt64.ofNat next.number = UInt64.ofNat header.number + 1 && contiguous (next :: rest)
  | _ => true

def apply (s : Snapshot) (headers : List Header) : Except Err Snapshot :=
  match headers with
  | [] => .ok s
  | first :: rest => do
      if !contiguous (first :: rest) then .error .invalidVotingChain else
      if UInt64.ofNat first.number ≠ s.number + 1 then .error .invalidVotingChain else
      let snap ← c.applyHeaders s (first :: rest)
      return { snap with
        number := snap.number + UInt64.ofNat (first :: rest).length
        hash := c.hash ((first :: rest).getLast (List.cons_ne_nil _ _)) }

/-- The difficulty does not tell whether it was the signer's turn. -/
def wrongDifficulty (s : Snapshot) (header : Header) (signer : Address) : Bool :=
  let inturn := s.inturn (UInt64.ofNat header.number) signer
  !c.fakeDiff
    && (inturn && header.difficulty ≠ diffInTurn || !inturn && header.difficulty ≠ diffNoTurn)

/-- `verifySeal` on the snapshot of the parent. -/
def verifySeal (s : Snapshot) (header : Header) : Except Err Unit :=
  let number := UInt64.ofNat header.number
  if number = 0 then
    .error .unknownBlock
  else
    match c.ecrecover header with
    | none => .error .ecrecover
    | some signer =>
        if signer ∉ s.signers then
          .error .unauthorizedSigner
        else if ∃ seen ∈ s.recents.keys,
            s.recents.lookup seen = some signer ∧ seen > number - UInt64.ofNat s.limit then
          .error .recentlySigned
        else if c.wrongDifficulty s header signer then
          .error .wrongDifficulty
        else
          .ok ()

end Engine

namespace Snapshot

variable (s : Snapshot)

variable (number : UInt64)

theorem dropRecent_eq : ∃ recents, s.dropRecent number = { s with recents := recents } := by
  unfold dropRecent
  split
  · exact ⟨_, rfl⟩
  · exact ⟨s.recents, rfl⟩

@[simp]
theorem dropRecent_signers : (s.dropRecent number).signers = s.signers := by
  obtain ⟨recents, dropped⟩ := s.dropRecent_eq number
  rw [dropped]

theorem startEpoch_eq (epoch number : UInt64)
    : ∃ votes tally, s.startEpoch epoch number = { s with votes := votes, tally := tally } := by
  unfold startEpoch
  split
  · exact ⟨_, _, rfl⟩
  · exact ⟨s.votes, s.tally, rfl⟩

@[simp]
theorem startEpoch_signers (epoch number : UInt64)
    : (s.startEpoch epoch number).signers = s.signers := by
  obtain ⟨votes, tally, started⟩ := s.startEpoch_eq epoch number
  rw [started]

theorem dropRecent_recents
    : (s.dropRecent number).recents
      = if number.toNat ≥ s.limit then s.recents.erase (number - UInt64.ofNat s.limit)
        else s.recents := by
  unfold dropRecent
  split <;> rfl

theorem startEpoch_dropRecent (epoch number block : UInt64)
    : ((s.startEpoch epoch number).dropRecent block).recents = (s.dropRecent block).recents := by
  obtain ⟨votes, tally, started⟩ := s.startEpoch_eq epoch number
  rw [started, dropRecent_recents, dropRecent_recents]
  rfl

/-- Uncasting a vote changes the tally only. -/
theorem uncast_eq (address : Address) (authorize : Bool)
    : ∃ tally, (s.uncast address authorize).1 = { s with tally := tally } := by
  unfold uncast
  split
  · exact ⟨s.tally, rfl⟩
  · split
    · exact ⟨s.tally, rfl⟩
    · split
      · exact ⟨_, rfl⟩
      · exact ⟨_, rfl⟩

/-- Discarding the votes of an account changes the votes and the tally only. -/
theorem discardCast_eq_with (signer : Address) (votes : List Vote)
    : ∃ votes' tally, s.discardCast signer votes = { s with votes := votes', tally := tally } := by
  induction votes generalizing s with
  | nil => exact ⟨[], s.tally, rfl⟩
  | cons vote rest ih =>
    rw [discardCast]
    split
    · obtain ⟨tally, uncast⟩ := s.uncast_eq vote.address vote.authorize
      rw [uncast]
      exact ih { s with tally := tally }
    · obtain ⟨votes', tally, discarded⟩ := ih s
      rw [discarded]
      exact ⟨_, tally, rfl⟩

theorem castVote_eq (signer : Address) (number : UInt64) (address : Address) (authorize : Bool)
    : ∃ votes tally, s.castVote signer number address authorize
      = { s with votes := votes, tally := tally } := by
  by_cases invalid : (!s.validVote address authorize) = true
  · simp only [castVote, cast, invalid, if_true]
    exact ⟨s.votes, s.tally, rfl⟩
  · simp only [castVote, cast, invalid]
    exact ⟨_, _, rfl⟩

/-- A round's end changes at most one signer; with one less, the window of recent signers is cut
once more.
-/
theorem settle_cases (address : Address)
    : ∃ votes tally, s.settle number address = { s with votes := votes, tally := tally }
      ∨ s.settle number address
        = { s with signers := insert address s.signers, votes := votes, tally := tally }
      ∨ s.settle number address
        = { s with
            signers := s.signers.erase address
            recents := ({ s with signers := s.signers.erase address }.dropRecent number).recents
            votes := votes
            tally := tally } := by
  unfold settle
  dsimp only
  split
  · split
    · exact ⟨_, _, .inr (.inl rfl)⟩
    · obtain ⟨recents, dropped⟩ :=
        ({ s with signers := s.signers.erase address } : Snapshot).dropRecent_eq number
      obtain ⟨votes, tally, discarded⟩ := discardCast_eq_with
        { s with signers := s.signers.erase address, recents := recents } address s.votes
      refine ⟨votes.filter fun vote => vote.address ≠ address, tally.delete address, .inr (.inr ?_)⟩
      rw [deauthorize, dropped]
      simp only [discarded]
  · exact ⟨s.votes, s.tally, .inl rfl⟩

theorem discardPrevious_eq (signer address : Address)
    : ∃ votes tally, s.discardPrevious signer address
      = { s with votes := votes, tally := tally } := by
  unfold discardPrevious
  split
  · exact ⟨s.votes, s.tally, rfl⟩
  · rename_i vote _
    obtain ⟨tally, uncast⟩ := s.uncast_eq vote.address vote.authorize
    rw [uncast]
    exact ⟨_, tally, rfl⟩

theorem discardPrevious_recents {recents : Finmap fun _ : UInt64 => Address}
    (signer address : Address)
    : (discardPrevious { s with recents := recents } signer address).tally
      = (s.discardPrevious signer address).tally := by
  unfold discardPrevious uncast
  dsimp only
  split
  · rfl
  · split <;> dsimp only
    split_ifs <;> rfl

end Snapshot

variable {s next : Snapshot} {header : Header} {headers : List Header}

namespace Engine

variable (c : Engine) {rest : List Header} {signer : Address} {earlier later : List Header}

/-- Who may sign: a signer that has not signed recently. -/
theorem authorizedSigner_ok
    : c.authorizedSigner s header = .ok signer
      ↔ c.ecrecover header = some signer ∧ signer ∈ s.signers
        ∧ s.signedRecently signer = false := by
  unfold authorizedSigner
  rcases recovered : c.ecrecover header with _ | found
  · simp
  dsimp only
  split
  · rename_i foreign
    simp only [reduceCtorEq, Option.some.injEq, false_iff, not_and]
    rintro rfl allowed
    exact absurd allowed foreign
  · split
    · rename_i recent
      simp only [reduceCtorEq, Option.some.injEq, false_iff, not_and]
      rintro rfl _
      simp [recent]
    · rename_i allowed notRecent
      simp only [Except.ok.injEq, Option.some.injEq]
      constructor
      · rintro rfl
        exact ⟨rfl, not_not.mp allowed, Bool.eq_false_iff.mpr notRecent⟩
      · exact fun known => known.1

/-- What an accepted header needs: a signer who is authorised and not recent. -/
theorem applyHeader_ok (applied : c.applyHeader s header = .ok next)
    : ∃ signer, c.ecrecover header = some signer ∧ signer ∈ s.signers
      ∧ (s.dropRecent (UInt64.ofNat header.number)).signedRecently signer = false
      ∧ record ((s.startEpoch c.epoch (UInt64.ofNat header.number)).dropRecent
          (UInt64.ofNat header.number)) header signer = .ok next := by
  obtain ⟨signer, authorized, recorded⟩ := except_bind_ok.mp applied
  obtain ⟨recovered, allowed, notRecent⟩ := c.authorizedSigner_ok.mp authorized
  simp only [Snapshot.dropRecent_signers, Snapshot.startEpoch_signers] at allowed
  refine ⟨signer, recovered, allowed, ?_, recorded⟩
  rwa [Snapshot.signedRecently, Snapshot.startEpoch_dropRecent, ← Snapshot.signedRecently]
    at notRecent

/-- A round that ends enters the signer, changes votes, and settles the account voted on. -/
theorem record_ok (recorded : record s header signer = .ok next)
    : ∃ votes tally, next
      = ({ s with
            recents := s.recents.insert (UInt64.ofNat header.number) signer
            votes := votes
            tally := tally } : Snapshot).settle (UInt64.ofNat header.number) header.coinbase := by
  obtain ⟨authorize, -, result⟩ := except_bind_ok.mp recorded
  cases result
  obtain ⟨votes, tally, discarded⟩ := Snapshot.discardPrevious_eq
    { s with recents := s.recents.insert (UInt64.ofNat header.number) signer }
    signer header.coinbase
  rw [discarded]
  obtain ⟨votes, tally, cast⟩ := Snapshot.castVote_eq
    { s with
      recents := s.recents.insert (UInt64.ofNat header.number) signer
      votes := votes
      tally := tally }
    signer (UInt64.ofNat header.number) header.coinbase authorize
  rw [cast]
  exact ⟨votes, tally, rfl⟩

theorem applyHeaders_cons (applied : c.applyHeaders s (header :: rest) = .ok next)
    : ∃ middle, c.applyHeader s header = .ok middle ∧ c.applyHeaders middle rest = .ok next :=
  except_bind_ok.mp applied

/-- A run of headers can be split at any point. -/
theorem applyHeaders_append
    : c.applyHeaders s (earlier ++ later) = .ok next
      ↔ ∃ middle, c.applyHeaders s earlier = .ok middle
        ∧ c.applyHeaders middle later = .ok next := by
  induction earlier generalizing s with
  | nil => simp [applyHeaders]
  | cons header rest ih =>
    simp only [List.cons_append, applyHeaders, except_bind_ok, ih]
    constructor
    · rintro ⟨first, applied, middle, others, last⟩
      exact ⟨middle, ⟨first, applied, others⟩, last⟩
    · rintro ⟨middle, ⟨first, applied, others⟩, last⟩
      exact ⟨first, applied, middle, others, last⟩

/-- A round leaves the number of the snapshot, which `apply` sets at the end. -/
theorem applyHeader_number (applied : c.applyHeader s header = .ok next)
    : next.number = s.number := by
  obtain ⟨signer, -, -, -, recorded⟩ := c.applyHeader_ok applied
  obtain ⟨votes, tally, rfl⟩ := record_ok recorded
  obtain ⟨votes', tally', started⟩ := s.startEpoch_eq c.epoch (UInt64.ofNat header.number)
  rw [started]
  obtain ⟨recents, dropped⟩ :=
    ({ s with votes := votes', tally := tally' } : Snapshot).dropRecent_eq
      (UInt64.ofNat header.number)
  rw [dropped]
  obtain ⟨_, _, same | added | removed⟩ := Snapshot.settle_cases
    { s with
      recents := recents.insert (UInt64.ofNat header.number) signer
      votes := votes
      tally := tally }
    (UInt64.ofNat header.number) header.coinbase
  · rw [same]
  · rw [added]
  · rw [removed]

theorem applyHeaders_number (applied : c.applyHeaders s headers = .ok next)
    : next.number = s.number := by
  induction headers generalizing s with
  | nil =>
    cases applied
    rfl
  | cons header rest ih =>
    obtain ⟨middle, first, others⟩ := c.applyHeaders_cons applied
    exact (ih others).trans (c.applyHeader_number first)

/-- What `apply` asks of a list of headers, and what it returns then. -/
theorem apply_cons_ok {first : Header}
    : c.apply s (first :: rest) = .ok next
      ↔ contiguous (first :: rest) = true ∧ UInt64.ofNat first.number = s.number + 1
        ∧ ∃ last, c.applyHeaders s (first :: rest) = .ok last
          ∧ next = { last with
              number := last.number + UInt64.ofNat (first :: rest).length
              hash := c.hash ((first :: rest).getLast (List.cons_ne_nil _ _)) } := by
  rw [apply]
  by_cases linked : contiguous (first :: rest) = true
  · by_cases number : UInt64.ofNat first.number = s.number + 1
    · simp only [linked, number, Bool.not_true, Bool.false_eq_true, if_false, ne_eq,
        not_true_eq_false, true_and, except_bind_ok]
      constructor
      · rintro ⟨last, rounds, result⟩
        cases result
        exact ⟨last, rounds, rfl⟩
      · rintro ⟨last, rounds, rfl⟩
        exact ⟨last, rounds, rfl⟩
    · simp [linked, number]
  · simp [linked]

theorem contiguous_tail (linked : contiguous (header :: rest) = true) : contiguous rest = true := by
  cases rest with
  | nil => rfl
  | cons next rest => exact (Bool.and_eq_true_iff.mp linked).2

theorem contiguous_append_left (linked : contiguous (earlier ++ later) = true)
    : contiguous earlier = true := by
  induction earlier with
  | nil => rfl
  | cons header rest ih =>
    have others := ih (contiguous_tail linked)
    cases rest with
    | nil => rfl
    | cons next rest => exact Bool.and_eq_true_iff.mpr ⟨(Bool.and_eq_true_iff.mp linked).1, others⟩

/-- Contiguous headers have the numbers behind the last one, as 64-bit numbers. -/
theorem number_of_contiguous {last : Nat} (linked : contiguous headers = true)
    (first : ∀ header, headers.head? = some header
      → UInt64.ofNat header.number = UInt64.ofNat (last + 1))
    : ∀ i header, headers[i]? = some header
      → UInt64.ofNat header.number = UInt64.ofNat (last + 1 + i) := by
  induction headers generalizing last with
  | nil => simp
  | cons head rest ih =>
    have start := first head rfl
    intro i header found
    cases i with
    | zero =>
      cases found
      exact start
    | succ i =>
      rw [show last + 1 + (i + 1) = last + 1 + 1 + i by omega]
      refine ih (contiguous_tail linked) ?_ i header (by simpa using found)
      intro next head
      rcases rest with _ | ⟨other, rest⟩
      · cases head
      · cases head
        have after := of_decide_eq_true (Bool.and_eq_true_iff.mp linked).1
        rw [after, start, UInt64.ofNat_add (last + 1)]
        rfl

/-- The headers that apply are contiguous, and come after the snapshot. -/
theorem apply_linked (applied : c.apply s headers = .ok next)
    : contiguous headers = true
      ∧ ∀ header, headers.head? = some header → UInt64.ofNat header.number = s.number + 1 := by
  cases headers with
  | nil => exact ⟨rfl, (fun _ none => nomatch none)⟩
  | cons first rest =>
    obtain ⟨linked, number, -⟩ := c.apply_cons_ok.mp applied
    refine ⟨linked, ?_⟩
    rintro header ⟨⟩
    exact number

/-- The headers before one of those applied apply by themselves, and the header after them. -/
theorem apply_split (applied : c.apply s (earlier ++ header :: rest) = .ok next)
    : ∃ before middle after, c.apply s earlier = .ok before
      ∧ c.applyHeaders s earlier = .ok middle ∧ before.signers = middle.signers
      ∧ c.applyHeader middle header = .ok after := by
  rcases earlier with _ | ⟨first, others⟩
  · obtain ⟨-, -, last, rounds, -⟩ := c.apply_cons_ok.mp applied
    obtain ⟨after, round, -⟩ := c.applyHeaders_cons rounds
    exact ⟨s, s, after, rfl, rfl, rfl, round⟩
  · obtain ⟨linked, number, last, rounds, -⟩ := c.apply_cons_ok.mp applied
    change c.applyHeaders s ((first :: others) ++ header :: rest) = .ok last at rounds
    obtain ⟨middle, left, right⟩ := c.applyHeaders_append.mp rounds
    obtain ⟨after, round, -⟩ := c.applyHeaders_cons right
    exact ⟨_, middle, after,
      c.apply_cons_ok.mpr ⟨contiguous_append_left linked, number, middle, left, rfl⟩, left, rfl,
      round⟩

/-- Apart from its number and hash, the result is the one of the rounds. -/
theorem apply_ok (applied : c.apply s headers = .ok next)
    : ∃ last, c.applyHeaders s headers = .ok last
      ∧ ∃ number hash, next = { last with number := number, hash := hash } := by
  unfold apply at applied
  split at applied
  · cases applied
    exact ⟨s, rfl, s.number, s.hash, rfl⟩
  · split at applied
    · cases applied
    · split at applied
      · cases applied
      · obtain ⟨last, rounds, result⟩ := except_bind_ok.mp applied
        cases result
        exact ⟨last, rounds, _, _, rfl⟩

end Engine

/-- An engine for which a header's time tells who signed it. -/
def sampleEngine : Engine :=
  {
    epoch := 30000
    epoch_ne_zero := by decide
    hash := fun _ => 0
    ecrecover := fun header => some (BitVec.ofNat 160 header.time.toNat)
  }

/-! The last signer. -/

namespace Engine

variable (c : Engine)

/-- A round takes at most the account it votes on from the signers. -/
theorem applyHeader_signers (applied : c.applyHeader s header = .ok next)
    : s.signers.erase header.coinbase ⊆ next.signers := by
  obtain ⟨signer, -, -, -, recorded⟩ := c.applyHeader_ok applied
  obtain ⟨votes, tally, rfl⟩ := record_ok recorded
  obtain ⟨_, _, same | added | removed⟩ := Snapshot.settle_cases
    { (s.startEpoch c.epoch (UInt64.ofNat header.number)).dropRecent
        (UInt64.ofNat header.number) with
      recents := _, votes := votes, tally := tally }
    (UInt64.ofNat header.number) header.coinbase
  · rw [same]
    simpa using Finset.erase_subset _ _
  · rw [added]
    simpa using (Finset.erase_subset _ _).trans (Finset.subset_insert _ _)
  · rw [removed]
    simp

/-- The only signer votes to keep itself, and no other vote about it is left: nothing is counted. -/
theorem record_spared (recorded : record s header header.coinbase = .ok next)
    (alone : s.signers = {header.coinbase}) (keeps : header.nonce ≠ nonceDropVote)
    (noVotes : (s.discardPrevious header.coinbase header.coinbase).tally header.coinbase = none)
    : next.signers = s.signers := by
  obtain ⟨authorize, voted, result⟩ := except_bind_ok.mp recorded
  obtain rfl : authorize = true := by
    unfold voteOf at voted
    split_ifs at voted
    exact (Except.ok.inj voted).symm
  cases result
  rw [← Snapshot.discardPrevious_recents s] at noVotes
  obtain ⟨votes, tally, discarded⟩ := Snapshot.discardPrevious_eq
    { s with recents := s.recents.insert (UInt64.ofNat header.number) header.coinbase }
    header.coinbase header.coinbase
  rw [discarded] at noVotes ⊢
  simp [Snapshot.castVote, Snapshot.cast, Snapshot.validVote, alone, Snapshot.settle, noVotes]

/-- A single signer stays one if its header is no vote against it and finds none. -/
theorem applyHeader_spared (applied : c.applyHeader s header = .ok next)
    (alone : s.signers = {header.coinbase}) (keeps : header.nonce ≠ nonceDropVote)
    (noVotes : (s.discardPrevious header.coinbase header.coinbase).tally header.coinbase = none)
    : next.signers = s.signers := by
  obtain ⟨signer, -, among, -, recorded⟩ := c.applyHeader_ok applied
  obtain rfl : signer = header.coinbase := by rwa [alone, Finset.mem_singleton] at among
  refine (record_spared recorded (by simpa using alone) keeps ?_).trans (by simp)
  obtain ⟨recents, dropped⟩ := (s.startEpoch c.epoch _).dropRecent_eq (UInt64.ofNat header.number)
  rw [dropped, Snapshot.discardPrevious_recents, Snapshot.startEpoch]
  split
  · rfl
  · exact noVotes

/-- While one signer is left, no header votes to drop it, and one about it finds no vote but its
own, which it replaces.
-/
def SparesLast : Snapshot → List Header → Prop
  | _, [] => True
  | s, header :: rest =>
      (s.signers = {header.coinbase} →
        header.nonce ≠ nonceDropVote
        ∧ (s.discardPrevious header.coinbase header.coinbase).tally header.coinbase = none)
      ∧ ∀ next, c.applyHeader s header = .ok next → SparesLast next rest

/-- Some signer is left after every accepted header, by induction on the headers. -/
theorem applyHeaders_nonempty (some : s.signers.Nonempty) (spares : c.SparesLast s headers)
    (applied : c.applyHeaders s headers = .ok next)
    : next.signers.Nonempty := by
  induction headers generalizing s with
  | nil =>
    cases applied
    exact some
  | cons header rest ih =>
    obtain ⟨middle, first, others⟩ := c.applyHeaders_cons applied
    refine ih ?_ (spares.2 middle first) others
    by_cases alone : s.signers = {header.coinbase}
    · obtain ⟨keeps, noVotes⟩ := spares.1 alone
      rwa [c.applyHeader_spared first alone keeps noVotes]
    · obtain ⟨other, member, apart⟩ : ∃ other ∈ s.signers, other ≠ header.coinbase := by
        by_contra only
        push Not at only
        exact alone (Finset.eq_singleton_iff_nonempty_unique_mem.mpr ⟨some, only⟩)
      exact ⟨other, c.applyHeader_signers first (Finset.mem_erase.mpr ⟨apart, member⟩)⟩

end Engine

/-- Signers stay unless a vote to drop the last of them is counted; `inturn` divides by their
number.
-/
theorem apply_keeps_signer (c : Engine) (s next : Snapshot) (headers : List Header)
    (some : s.signers.Nonempty) (spares : c.SparesLast s headers)
    (applied : c.apply s headers = .ok next)
    : next.signers.Nonempty ∧ 0 < next.signers.card := by
  obtain ⟨last, rounds, number, hash, rfl⟩ := c.apply_ok applied
  have kept : last.signers.Nonempty := c.applyHeaders_nonempty some spares rounds
  exact ⟨kept, kept.card_pos⟩

/-- The only signer votes for itself. -/
theorem apply_keeps_signer_single
    : ∃ next, sampleEngine.apply (newSnapshot 0 0 [1])
          [{ number := 1, time := 1, coinbase := 1, nonce := nonceAuthVote }] = .ok next
        ∧ 0 < next.signers.card := by
  have spares : sampleEngine.SparesLast (newSnapshot 0 0 [1])
      [{ number := 1, time := 1, coinbase := 1, nonce := nonceAuthVote }] :=
    ⟨fun _ => ⟨by decide, rfl⟩, fun _ _ => trivial⟩
  exact ⟨_, rfl, (apply_keeps_signer _ _ _ _ ⟨1, by decide⟩ spares rfl).2⟩

/-- The only signer votes itself out. -/
theorem apply_loses_signer
    : ∃ next, sampleEngine.apply (newSnapshot 0 0 [1])
          [{ number := 1, time := 1, coinbase := 1, nonce := nonceDropVote }] = .ok next
        ∧ next.signers.card = 0 :=
  ⟨_, rfl, by decide⟩

/-! Whose turn it is. -/

variable {s : Snapshot} {signer other : Address}

theorem Snapshot.offset_lt (member : signer ∈ s.signers) (larger : other ∈ s.signers)
    (less : signer.toNat < other.toNat)
    : s.offset signer < s.offset other := by
  rw [offset, offset, if_pos member, if_pos larger]
  refine Finset.card_lt_card (Finset.ssubset_iff_of_subset ?_ |>.mpr ⟨signer, ?_, ?_⟩)
  · exact Finset.monotone_filter_right _ fun a _ below => below.trans less
  · simpa using ⟨member, less⟩
  · simp

/-- No two signers have the same turn. -/
theorem Snapshot.offset_injOn : Set.InjOn s.offset s.signers := by
  intro a memberA b memberB same
  rcases Nat.lt_trichotomy a.toNat b.toNat with less | eq | less
  · exact absurd same (offset_lt memberA memberB less).ne
  · exact BitVec.eq_of_toNat_eq eq
  · exact absurd same (offset_lt memberB memberA less).ne'

theorem Snapshot.offset_lt_card (member : signer ∈ s.signers)
    : s.offset signer < s.signers.card := by
  rw [offset, if_pos member]
  exact Finset.card_lt_card (Finset.filter_ssubset.mpr ⟨signer, member, by simp⟩)

/-- At each height it is one signer's turn. -/
theorem Snapshot.inturn_iff (nonempty : s.signers.Nonempty) (number : UInt64)
    : ∃ signer ∈ s.signers, ∀ other ∈ s.signers, s.inturn number other = true ↔ other = signer := by
  have all : s.signers.image s.offset = Finset.range s.signers.card := by
    apply Finset.eq_of_subset_of_card_le
    · exact Finset.image_subset_iff.mpr fun _ member => Finset.mem_range.mpr (offset_lt_card member)
    · rw [Finset.card_range, Finset.card_image_of_injOn offset_injOn]
  have residue := Finset.mem_range.mpr (Nat.mod_lt number.toNat nonempty.card_pos)
  rw [← all] at residue
  obtain ⟨signer, member, turn⟩ := Finset.mem_image.mp residue
  refine ⟨signer, member, fun other among => ?_⟩
  rw [inturn, decide_eq_true_iff, ← turn]
  exact ⟨fun same => offset_injOn among member same.symm, fun same => same ▸ rfl⟩

/-- A sealed header has the difficulty of its signer's turn. -/
theorem Engine.verifySeal_ok {c : Engine} {header : Header} (real : c.fakeDiff = false)
    (accepted : c.verifySeal s header = .ok ())
    : ∃ signer ∈ s.signers, c.ecrecover header = some signer
      ∧ header.difficulty
        = if s.inturn (UInt64.ofNat header.number) signer then diffInTurn else diffNoTurn := by
  unfold verifySeal at accepted
  rcases recovered : c.ecrecover header with _ | signer <;> simp only [recovered] at accepted
  · split_ifs at accepted
  · split_ifs at accepted with genesis member recent wrong
    refine ⟨signer, member, rfl, ?_⟩
    simp only [wrongDifficulty, real] at wrong
    split_ifs with turn <;> simp_all

/-- Of the headers at one height, those that one of the signers signed must have the difficulty in
turn, and all the others the one out of turn.
-/
theorem Engine.one_signer_in_turn (c : Engine) (s : Snapshot) (nonempty : s.signers.Nonempty)
    (real : c.fakeDiff = false) (number : UInt64)
    : ∃ signer ∈ s.signers, ∀ header,
        UInt64.ofNat header.number = number → c.verifySeal s header = .ok ()
        → header.difficulty
          = if c.ecrecover header = some signer then diffInTurn else diffNoTurn := by
  obtain ⟨signer, member, turns⟩ := s.inturn_iff nonempty number
  refine ⟨signer, member, ?_⟩
  rintro header rfl accepted
  obtain ⟨other, among, recovered, difficulty⟩ := verifySeal_ok real accepted
  simp only [difficulty, recovered, Option.some.injEq, turns other among]

/-- Of two headers that are accepted at height 1, the one in turn tells the signer. -/
theorem Engine.one_signer_in_turn_two
    : let turn : Header := { number := 1, time := 2, difficulty := diffInTurn }
      let noTurn : Header := { number := 1, time := 1, difficulty := diffNoTurn }
      sampleEngine.verifySeal (newSnapshot 0 0 [1, 2]) turn = .ok ()
      ∧ sampleEngine.verifySeal (newSnapshot 0 0 [1, 2]) noTurn = .ok ()
      ∧ ∃ signer ∈ (newSnapshot 0 0 [1, 2]).signers,
        sampleEngine.ecrecover turn = some signer
          ∧ sampleEngine.ecrecover noTurn ≠ some signer := by
  intro turn noTurn
  have accepted : sampleEngine.verifySeal (newSnapshot 0 0 [1, 2]) turn = .ok () := by
    decide +kernel
  have other : sampleEngine.verifySeal (newSnapshot 0 0 [1, 2]) noTurn = .ok () := by decide +kernel
  obtain ⟨signer, member, decides⟩ :=
    sampleEngine.one_signer_in_turn (newSnapshot 0 0 [1, 2]) ⟨1, by decide⟩ rfl 1
  refine ⟨accepted, other, signer, member, ?_, ?_⟩
  · by_contra stranger
    have difficulty := decides turn rfl accepted
    rw [if_neg stranger] at difficulty
    cases difficulty
  · intro same
    have difficulty := decides noTurn rfl other
    rw [if_pos same] at difficulty
    cases difficulty

end GoBinacoin.Clique
