import GoBinacoin.Clique.Recents

/-! `verifySeal` and `apply` check a header's signer by the same rule, written twice. They differ on
a signer whose blocks are all ones that `verifySeal` does not count although `apply` keeps them.
-/

namespace GoBinacoin.Clique

open Types Program Snapshot

/-- The outcome of a check is one of the two errors about the signer. -/
def SignerRejected {α : Type} (outcome : Except Err α) : Prop :=
  outcome = .error .unauthorizedSigner ∨ outcome = .error .recentlySigned

section Checks

variable (c : Engine) {s : Snapshot} {header : Header}

/-- The seal check turns down a signer without right, or one with an entry behind the limit. -/
theorem verifySeal_rejected_iff (notGenesis : UInt64.ofNat header.number ≠ 0)
    : SignerRejected (c.verifySeal s header)
      ↔ ∃ signer, c.ecrecover header = some signer
        ∧ (signer ∉ s.signers
          ∨ ∃ seen ∈ s.recents.keys, s.recents.lookup seen = some signer
            ∧ UInt64.ofNat header.number - UInt64.ofNat s.limit < seen) := by
  simp only [Engine.verifySeal, if_neg notGenesis, SignerRejected]
  rcases c.ecrecover header with _ | signer
  · simp
  simp only [Option.some.injEq, exists_eq_left', gt_iff_lt]
  split
  · rename_i foreign
    simp [foreign]
  · rename_i allowed
    split
    · rename_i recent
      exact iff_of_true (.inr rfl) (.inr recent)
    · rename_i notRecent
      split <;> simp [allowed, notRecent]

/-- A round turns down a signer without right, or one that signed recently. -/
theorem authorizedSigner_rejected_iff
    : SignerRejected (c.authorizedSigner s header)
      ↔ ∃ signer, c.ecrecover header = some signer
        ∧ (signer ∉ s.signers ∨ s.signedRecently signer = true) := by
  simp only [Engine.authorizedSigner, SignerRejected]
  rcases c.ecrecover header with _ | signer
  · simp
  simp only [Option.some.injEq, exists_eq_left']
  split
  · rename_i foreign
    simp [foreign]
  · rename_i allowed
    split
    · rename_i recent
      simp [recent]
    · rename_i notRecent
      simp [allowed, notRecent]

/-- After its signer is accepted, a header fails by its vote only. -/
theorem record_error {signer : Address} {e : Err}
    (failed : Engine.record s header signer = .error e)
    : e = .invalidVote := by
  unfold Engine.record at failed
  rcases asked : voteOf header.nonce with e' | authorize
  · rw [asked] at failed
    cases failed
    unfold voteOf at asked
    split at asked
    · cases asked
    · split at asked
      · cases asked
      · cases asked
        rfl
  · rw [asked] at failed
    cases failed

variable (number : UInt64.ofNat header.number = s.number + 1)
include number

theorem apply_single
    : c.apply s [header]
      = (c.applyHeader s header).map fun next =>
          { next with number := next.number + 1, hash := c.hash header } := by
  simp only [Engine.apply, Engine.contiguous, number, Engine.applyHeaders, Bool.not_true,
    Bool.false_eq_true, if_false, ne_eq, not_true_eq_false]
  cases c.applyHeader s header <;> rfl

/-- Applying one header first drops the entry that leaves the window. -/
theorem apply_rejected_iff
    : SignerRejected (c.apply s [header])
      ↔ ∃ signer, c.ecrecover header = some signer
        ∧ (signer ∉ s.signers
          ∨ (s.dropRecent (UInt64.ofNat header.number)).signedRecently signer = true) := by
  have checked : SignerRejected (c.apply s [header])
      ↔ SignerRejected (c.authorizedSigner
          ((s.startEpoch c.epoch (UInt64.ofNat header.number)).dropRecent
            (UInt64.ofNat header.number)) header) := by
    rw [apply_single c number]
    simp only [Engine.applyHeader]
    cases authorized : c.authorizedSigner
        ((s.startEpoch c.epoch (UInt64.ofNat header.number)).dropRecent
          (UInt64.ofNat header.number)) header with
    | error e => simp [SignerRejected, bind, Except.bind, Except.map]
    | ok signer =>
      simp only [SignerRejected, bind, Except.bind, reduceCtorEq, or_self, iff_false]
      cases recorded : Engine.record
          ((s.startEpoch c.epoch (UInt64.ofNat header.number)).dropRecent
            (UInt64.ofNat header.number)) header signer with
      | ok next => simp [Except.map]
      | error e =>
        rw [record_error recorded]
        simp [Except.map]
  rw [checked, authorizedSigner_rejected_iff]
  simp [dropRecent_signers, startEpoch_signers, signedRecently, startEpoch_dropRecent]

omit number

/-- The signer has blocks that `apply` keeps among the recent ones, but none that `verifySeal`
counts.
-/
def Engine.Overlooked (s : Snapshot) (header : Header) : Prop :=
  ∃ signer, c.ecrecover header = some signer ∧ signer ∈ s.signers
    ∧ (s.dropRecent (UInt64.ofNat header.number)).signedRecently signer = true
    ∧ ∀ seen ∈ s.recents.keys, s.recents.lookup seen = some signer
      → seen ≤ UInt64.ofNat header.number - UInt64.ofNat s.limit

theorem signedRecently_of_counted {signer : Address} {number seen : UInt64}
    (found : s.recents.lookup seen = some signer) (counted : number - UInt64.ofNat s.limit < seen)
    : (s.dropRecent number).signedRecently signer = true := by
  have kept : (s.dropRecent number).recents.lookup seen = some signer := by
    rw [dropRecent_recents]
    split
    · rw [Finmap.lookup_erase_ne (fun same => absurd (same ▸ counted) (UInt64.lt_irrefl _))]
      exact found
    · exact found
  exact mem_signedRecently kept

/-- The two checks differ exactly where the seal check overlooks a recent entry. -/
theorem rejected_agree_iff (number : UInt64.ofNat header.number = s.number + 1)
    (notGenesis : UInt64.ofNat header.number ≠ 0)
    : (SignerRejected (c.verifySeal s header) ↔ SignerRejected (c.apply s [header]))
      ↔ ¬c.Overlooked s header := by
  rw [verifySeal_rejected_iff c notGenesis, apply_rejected_iff c number]
  constructor
  · rintro agree ⟨signer, recovered, allowed, recent, below⟩
    obtain ⟨other, same, foreign | ⟨seen, member, found, counted⟩⟩ :=
      agree.mpr ⟨signer, recovered, .inr recent⟩
    · cases recovered.symm.trans same
      exact foreign allowed
    · cases recovered.symm.trans same
      exact absurd counted (UInt64.not_lt.mpr (below seen member found))
  · intro seen
    constructor
    · rintro ⟨signer, recovered, foreign | ⟨seen, member, found, counted⟩⟩
      · exact ⟨signer, recovered, .inl foreign⟩
      · exact ⟨signer, recovered, .inr (signedRecently_of_counted found counted)⟩
    · rintro ⟨signer, recovered, foreign | recent⟩
      · exact ⟨signer, recovered, .inl foreign⟩
      · refine ⟨signer, recovered, ?_⟩
        by_contra neither
        rw [not_or, not_not] at neither
        refine seen ⟨signer, recovered, neither.1, recent, ?_⟩
        intro block member found
        exact UInt64.not_lt.mp fun counted => neither.2 ⟨block, member, found, counted⟩

/-- The snapshots that headers lead to from a checkpoint, as far as block numbers reach. -/
def Engine.Reached (s : Snapshot) : Prop :=
  ∃ number hash signers headers, number.toNat + headers.length < 2 ^ 64
    ∧ c.apply (newSnapshot number hash signers) headers = .ok s

/-- For such a snapshot only the blocks before the window is full are overlooked. -/
theorem overlooked_iff (reached : c.Reached s) (sized : s.signers.card < 2 ^ 63)
    (number : UInt64.ofNat header.number = s.number + 1)
    (notGenesis : UInt64.ofNat header.number ≠ 0)
    : c.Overlooked s header
      ↔ (UInt64.ofNat header.number).toNat < s.limit
        ∧ ∃ signer, c.ecrecover header = some signer ∧ signer ∈ s.signers
          ∧ s.signedRecently signer = true := by
  obtain ⟨start, hash, signers, headers, fits, applied⟩ := reached
  obtain ⟨last, -, window, sameSigners, sameRecents, at_⟩ := c.apply_checkpoint fits applied
  have one : (1 : UInt64).toNat = 1 := rfl
  have small : s.number.toNat + 1 < 2 ^ 64 := by
    have := s.number.toNat_lt
    by_contra wraps
    apply notGenesis
    apply UInt64.toNat_inj.mp
    rw [number, UInt64.toNat_add, one]
    have zero : (0 : UInt64).toNat = 0 := rfl
    omega
  have next : UInt64.ofNat header.number = UInt64.ofNat (s.number.toNat + 1) := by
    rw [number, UInt64.ofNat_add, UInt64.ofNat_toNat]
    rfl
  have limit : last.limit = s.limit := by rw [Snapshot.limit, Snapshot.limit, sameSigners]
  have window : s.Window (c.signedBy start.toNat headers) start.toNat s.number.toNat := by
    unfold Snapshot.Window at window ⊢
    rwa [at_, sameRecents, ← limit]
  have value := toNat_ofNat_of_lt small
  unfold Engine.Overlooked
  rw [next, value]
  constructor
  · rintro ⟨signer, recovered, allowed, recent, below⟩
    obtain ⟨block, member, found⟩ := of_decide_eq_true recent
    obtain ⟨-, -, near⟩ := (window.dropped small).keys block member
    rw [Snapshot.dropRecent_recents, value] at found
    by_cases full : s.number.toNat + 1 ≥ s.limit
    · rw [if_pos full, ofNat_sub_ofNat small full] at found
      have kept : s.recents.lookup block = some signer := by
        by_cases dropped : block = UInt64.ofNat (s.number.toNat + 1 - s.limit)
        · rw [dropped, Finmap.lookup_erase] at found
          cases found
        · rwa [Finmap.lookup_erase_ne dropped] at found
      have late := below block (Finmap.mem_keys.mpr (Finmap.mem_of_lookup_eq_some kept)) kept
      rw [ofNat_sub_ofNat small full, UInt64.le_iff_toNat_le, toNat_ofNat_of_lt (by omega)] at late
      omega
    · rw [if_neg full] at found
      exact ⟨by omega, signer, recovered, allowed, Snapshot.mem_signedRecently found⟩
  · rintro ⟨early, signer, recovered, allowed, recent⟩
    obtain ⟨block, member, found⟩ := of_decide_eq_true recent
    refine ⟨signer, recovered, allowed, ?_, ?_⟩
    · have kept : (s.dropRecent (UInt64.ofNat (s.number.toNat + 1))).recents.lookup block
          = some signer := by
        rw [Snapshot.dropRecent_recents, value, if_neg (by omega)]
        exact found
      exact Snapshot.mem_signedRecently kept
    · -- The subtraction wraps to a number above every block.
      intro seen member _
      obtain ⟨-, upto, -⟩ := window.keys seen member
      have bounded : s.limit < 2 ^ 64 := by unfold Snapshot.limit; omega
      rw [UInt64.le_iff_toNat_le, UInt64.toNat_sub, value, toNat_ofNat_of_lt bounded]
      omega

/-- A header that `verifySeal` accepts can be applied, unless it is overlooked or its vote invalid.
-/
theorem apply_of_verifySeal (number : UInt64.ofNat header.number = s.number + 1)
    (notGenesis : UInt64.ofNat header.number ≠ 0) (seen : ¬c.Overlooked s header)
    (accepted : c.verifySeal s header = .ok ())
    {authorize : Bool} (asked : voteOf header.nonce = .ok authorize)
    : ∃ next, c.apply s [header] = .ok next := by
  obtain ⟨signer, recovered⟩ : ∃ signer, c.ecrecover header = some signer := by
    cases recovered : c.ecrecover header with
    | none => simp [Engine.verifySeal, notGenesis, recovered] at accepted
    | some signer => exact ⟨signer, rfl⟩
  have passes : ¬SignerRejected (c.apply s [header]) := by
    rw [← (rejected_agree_iff c number notGenesis).mpr seen, SignerRejected, accepted]
    simp
  rw [apply_rejected_iff c number, not_exists] at passes
  have clear := not_or.mp fun rejected => passes signer ⟨recovered, rejected⟩
  have authorized : c.authorizedSigner
      ((s.startEpoch c.epoch (UInt64.ofNat header.number)).dropRecent
        (UInt64.ofNat header.number)) header = .ok signer := by
    rw [c.authorizedSigner_ok, signedRecently, startEpoch_dropRecent,
      ← signedRecently, dropRecent_signers, startEpoch_signers]
    exact ⟨recovered, not_not.mp clear.1, Bool.eq_false_iff.mpr clear.2⟩
  rw [apply_single c number, Engine.applyHeader]
  simp only [authorized, Engine.record, asked, bind, Except.bind]
  exact ⟨_, rfl⟩

end Checks

/-- On every snapshot and header after it the two checks of the signer agree exactly if the signer
is not overlooked; accepted headers can then be applied. On the snapshots that occur, a signer is
overlooked exactly if it signed one of the first blocks, before the window is full.
-/
theorem verifySeal_apply_agree_iff (c : Engine) (s : Snapshot) (header : Header)
    (number : UInt64.ofNat header.number = s.number + 1)
    (notGenesis : UInt64.ofNat header.number ≠ 0)
    : ((SignerRejected (c.verifySeal s header) ↔ SignerRejected (c.apply s [header]))
        ↔ ¬c.Overlooked s header)
      ∧ (¬c.Overlooked s header → c.verifySeal s header = .ok ()
        → ∀ authorize, voteOf header.nonce = .ok authorize → ∃ next, c.apply s [header] = .ok next)
      ∧ (c.Reached s → s.signers.card < 2 ^ 63
        → (c.Overlooked s header
          ↔ (UInt64.ofNat header.number).toNat < s.limit
            ∧ ∃ signer, c.ecrecover header = some signer ∧ signer ∈ s.signers
              ∧ s.signedRecently signer = true)) :=
  ⟨rejected_agree_iff c number notGenesis,
    fun seen accepted _ asked => apply_of_verifySeal c number notGenesis seen accepted asked,
    fun reached sized => overlooked_iff c reached sized number notGenesis⟩

/-- Five signers, the first of which signed the first block. -/
def firstSigned : Snapshot :=
  { newSnapshot 1 0 [1, 2, 3, 4, 5] with recents := Finmap.singleton 1 1 }

theorem firstSigned_reached : sampleEngine.Reached firstSigned := by
  refine ⟨0, 0, [1, 2, 3, 4, 5], [{ number := 1, time := 1, coinbase := 9 }], by decide, ?_⟩
  rfl

/-- The second signer is not overlooked, so both checks accept its block. -/
theorem verifySeal_apply_agree_iff_second
    : ¬SignerRejected
        (sampleEngine.verifySeal firstSigned { number := 2, difficulty := 1, time := 2 })
      ∧ ∃ next, sampleEngine.apply firstSigned [{ number := 2, difficulty := 1, time := 2 }]
          = .ok next := by
  obtain ⟨agree, applies, occurs⟩ := verifySeal_apply_agree_iff sampleEngine firstSigned
    { number := 2, difficulty := 1, time := 2 } (by decide) (by decide)
  have seen : ¬sampleEngine.Overlooked firstSigned { number := 2, difficulty := 1, time := 2 } := by
    rw [occurs firstSigned_reached (by decide)]
    rintro ⟨-, signer, recovered, -, recent⟩
    cases recovered
    revert recent
    decide
  have accepted : sampleEngine.verifySeal firstSigned
      { number := 2, difficulty := 1, time := 2 } = .ok () := by
    decide
  refine ⟨?_, applies seen accepted false rfl⟩
  rw [accepted]
  simp [SignerRejected]

/-- The first signer signs the second block as well: `verifySeal` accepts it, on a snapshot that
`apply` made, but it cannot be applied.
-/
theorem verifySeal_accepts_unappliable
    : sampleEngine.Reached firstSigned
      ∧ sampleEngine.verifySeal firstSigned { number := 2, difficulty := 1, time := 1 } = .ok ()
      ∧ sampleEngine.apply firstSigned [{ number := 2, difficulty := 1, time := 1 }]
        = .error .recentlySigned :=
  ⟨firstSigned_reached, by decide, rfl⟩

end GoBinacoin.Clique
