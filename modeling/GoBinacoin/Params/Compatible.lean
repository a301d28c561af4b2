import GoBinacoin.Params.Config

/-! What a compatible configuration means for the blocks that a node already has. The check goes
through a list of forks by hand; three of the rules that depend on the configuration slip through.
-/

namespace GoBinacoin.Params

open ChainConfig

/-- The same rules hold at a block under both configurations. The side taken on the DAO fork counts
once the fork is active, and the chain id once transactions are signed for it.
-/
structure SameRules (c newcfg : ChainConfig) (n : Nat) : Prop where
  homestead : c.isHomestead (some n) = newcfg.isHomestead (some n)
  daoFork : c.isDAOFork (some n) = newcfg.isDAOFork (some n)
  daoSupport : c.isDAOFork (some n) = true → c.daoForkSupport = newcfg.daoForkSupport
  eip150 : c.isEIP150 (some n) = newcfg.isEIP150 (some n)
  eip155 : c.isEIP155 (some n) = newcfg.isEIP155 (some n)
  eip158 : c.isEIP158 (some n) = newcfg.isEIP158 (some n)
  byzantium : c.isByzantium (some n) = newcfg.isByzantium (some n)
  constantinople : c.isConstantinople (some n) = newcfg.isConstantinople (some n)
  petersburg : c.isPetersburg (some n) = newcfg.isPetersburg (some n)
  istanbul : c.isIstanbul (some n) = newcfg.isIstanbul (some n)
  muirGlacier : c.isMuirGlacier (some n) = newcfg.isMuirGlacier (some n)
  berlin : c.isBerlin (some n) = newcfg.isBerlin (some n)
  london : c.isLondon (some n) = newcfg.isLondon (some n)
  catalyst : c.isCatalyst (some n) = newcfg.isCatalyst (some n)
  chainID : c.isEIP155 (some n) = true → c.chainID = newcfg.chainID

variable {s1 s2 : Option Int} {c newcfg : ChainConfig} {height : UInt64}

variable {n : Nat} {head : UInt64} {err : ConfigCompatError}

/-- A fork that the check lets pass has the same blocks up to the head. -/
theorem isForked_eq_of_compatible {head : Nat}
    (compatible : isForkIncompatible s1 s2 (some head) = false) (below : n ≤ head)
    : isForked s1 (some n) = isForked s2 (some n) := by
  by_cases same : s1 = s2
  · rw [same]
  · have later : ¬(isForked s1 (some head) = true ∨ isForked s2 (some head) = true) := fun active =>
      Bool.false_ne_true (compatible.symm.trans (isForkIncompatible_iff.mpr ⟨active, same⟩))
    rw [Bool.eq_iff_iff]
    exact ⟨fun active => absurd (.inl (isForked_mono below active)) later,
      fun active => absurd (.inr (isForked_mono below active)) later⟩

/-- The first block at which a fork is active: none is below the genesis block. -/
def firstBlock (s : Option Int) : Option Int := s.map (max 0)

theorem isForked_firstBlock (s : Option Int) (n : Nat)
    : isForked (firstBlock s) (some n) = isForked s (some n) := by
  rcases s with _ | block
  · rfl
  · have : max 0 block ≤ (n : Int) ↔ block ≤ n := by omega
    simp [firstBlock, isForked, this]

/-- Two forks agree on the blocks up to the head exactly if the check would let them pass. -/
theorem isForked_agree_iff {head : Nat}
    : (∀ n ≤ head, isForked s1 (some n) = isForked s2 (some n))
      ↔ isForkIncompatible (firstBlock s1) (firstBlock s2) (some head) = false := by
  constructor
  · intro agree
    -- A fork that is active at the head has its first block among those compared.
    have same : ∀ {t1 t2 : Option Int},
        (∀ n ≤ head, isForked t1 (some n) = isForked t2 (some n))
        → isForked t1 (some head) = true → firstBlock t1 = firstBlock t2 := by
      intro t1 t2 agree active
      obtain ⟨a, rfl, activeA⟩ := isForked_iff.mp active
      obtain ⟨b, rfl, activeB⟩ := isForked_iff.mp ((agree head le_rfl).symm.trans active)
      have atA := agree (max 0 a).toNat (by omega)
      have atB := agree (max 0 b).toNat (by omega)
      simp only [isForked, decide_eq_decide] at atA atB
      simp only [firstBlock, Option.map_some, Option.some.injEq]
      omega
    rw [← Bool.not_eq_true, isForkIncompatible_iff, isForked_firstBlock, isForked_firstBlock]
    rintro ⟨active | active, apart⟩
    · exact apart (same agree active)
    · exact apart (same (fun n below => (agree n below).symm) active).symm
  · intro compatible n below
    rw [← isForked_firstBlock s1, ← isForked_firstBlock s2]
    exact isForked_eq_of_compatible compatible below

namespace ChainConfig

/-- Once a conflict was found, the loop returns one. -/
theorem compatLoop_ne_none (c newcfg : ChainConfig) {fuel : Nat} {last : ConfigCompatError}
    : c.compatLoop newcfg fuel (some last) head ≠ some none := by
  induction fuel generalizing last head with
  | zero => simp [compatLoop]
  | succ fuel ih =>
    rw [compatLoop]
    rcases c.checkCompatibleAt newcfg (some head.toNat) with _ | err
    · simp
    · dsimp only
      split
      · simp
      · exact ih

theorem compatLoop_eq (c newcfg : ChainConfig) (height : UInt64)
    : c.compatLoop newcfg (height.toNat + 2) none height = some (c.checkCompatible newcfg height) :=
  (Option.some_get _).symm

theorem checkCompatibleAt_of_checkCompatible (compatible : c.checkCompatible newcfg height = none)
    : c.checkCompatibleAt newcfg (some height.toNat) = none := by
  have loop := c.compatLoop_eq newcfg height
  rw [compatible, compatLoop] at loop
  rcases checked : c.checkCompatibleAt newcfg (some height.toNat) with _ | err
  · rfl
  · rw [checked] at loop
    exact absurd loop (c.compatLoop_ne_none newcfg)

theorem checks_pass {num : Option Int} (free : c.checkCompatibleAt newcfg num = none)
    : ∀ check ∈ c.compatChecks newcfg num, check.fails = false := by
  rw [checkCompatibleAt, Option.map_eq_none_iff, List.find?_eq_none] at free
  exact fun check listed => Bool.eq_false_iff.mpr (free check listed)

/-- The block from which Petersburg is active. -/
def petersburgFrom (c : ChainConfig) : Option Int :=
  c.petersburgBlock.or c.constantinopleBlock

theorem isPetersburg_eq (c : ChainConfig) (num : Option Int)
    : c.isPetersburg num = isForked c.petersburgFrom num := by
  cases petersburg : c.petersburgBlock <;>
    simp [isPetersburg, petersburgFrom, petersburg, isForked]

end ChainConfig

/-- What `CheckCompatible` leaves open: Catalyst is not checked, Petersburg is compared by its own
block although Constantinople's may stand in for it, and the chain id is compared only from EIP-158
on.
-/
structure Unmoved (c newcfg : ChainConfig) (height : UInt64) : Prop where
  catalyst :
    isForkIncompatible (firstBlock c.catalystBlock) (firstBlock newcfg.catalystBlock)
      (some height.toNat) = false
  petersburg :
    isForkIncompatible (firstBlock c.petersburgFrom) (firstBlock newcfg.petersburgFrom)
      (some height.toNat) = false
  chainID : c.isEIP155 (some height.toNat) = true → c.chainID = newcfg.chainID

/-- For a configuration that `CheckCompatible` accepts, the rules up to the head are the same
exactly if Catalyst, Petersburg and the chain id are.
-/
theorem checkCompatible_sameRules_iff (c newcfg : ChainConfig) (height : UInt64)
    (compatible : c.checkCompatible newcfg height = none)
    : (∀ n ≤ height.toNat, SameRules c newcfg n) ↔ Unmoved c newcfg height := by
  have pass := checks_pass (checkCompatibleAt_of_checkCompatible compatible)
  simp only [compatChecks, forkCheck, List.forall_mem_cons, List.not_mem_nil,
    false_implies, implies_true, and_true] at pass
  obtain ⟨homestead, daoFork, daoSupport, eip150, eip155, eip158, -, byzantium, constantinople, -,
    istanbul, muirGlacier, berlin, london⟩ := pass
  constructor
  · intro same
    exact
      {
        catalyst := isForked_agree_iff.mp fun n below => (same n below).catalyst
        petersburg := isForked_agree_iff.mp fun n below => by
          rw [← isPetersburg_eq, ← isPetersburg_eq]
          exact (same n below).petersburg
        chainID := (same height.toNat le_rfl).chainID
      }
  · intro unmoved n below
    exact
      {
        homestead := isForked_eq_of_compatible homestead below
        daoFork := isForked_eq_of_compatible daoFork below
        daoSupport := fun active => by
          have atHead : c.isDAOFork (some height.toNat) = true := isForked_mono below active
          simpa [atHead] using daoSupport
        eip150 := isForked_eq_of_compatible eip150 below
        eip155 := isForked_eq_of_compatible eip155 below
        eip158 := isForked_eq_of_compatible eip158 below
        byzantium := isForked_eq_of_compatible byzantium below
        constantinople := isForked_eq_of_compatible constantinople below
        petersburg := by
          rw [isPetersburg_eq, isPetersburg_eq]
          exact isForked_agree_iff.mpr unmoved.petersburg n below
        istanbul := isForked_eq_of_compatible istanbul below
        muirGlacier := isForked_eq_of_compatible muirGlacier below
        berlin := isForked_eq_of_compatible berlin below
        london := isForked_eq_of_compatible london below
        catalyst := isForked_agree_iff.mpr unmoved.catalyst n below
        chainID := fun active => unmoved.chainID (isForked_mono below active)
      }

/-- Forks up to Constantinople, some of them at the genesis block. -/
def sampleConfig : ChainConfig :=
  {
    chainID := some 1
    homesteadBlock := some 0
    eip150Block := some 0
    eip155Block := some 1
    eip158Block := some 100
    byzantiumBlock := some 100
    constantinopleBlock := some 105
  }

/-- Petersburg is written down for the block from which it already was active. -/
theorem checkCompatible_sameRules_iff_petersburg
    : sampleConfig.checkCompatible { sampleConfig with petersburgBlock := some 105 } 200 = none
      ∧ ∀ n ≤ 200, SameRules sampleConfig { sampleConfig with petersburgBlock := some 105 } n := by
  have compatible : sampleConfig.checkCompatible
      { sampleConfig with petersburgBlock := some 105 } 200 = none := by
    decide
  refine ⟨compatible, (checkCompatible_sameRules_iff _ _ 200 compatible).mpr ?_⟩
  exact { catalyst := by decide, petersburg := by decide, chainID := fun _ => rfl }

/-- Two configurations in order, which `CheckCompatible` accepts for a head although the rules of a
block below it differ.
-/
structure Missed (c newcfg : ChainConfig) (height : UInt64) (n : Nat) : Prop where
  ordered : c.checkConfigForkOrder = .ok ()
  newOrdered : newcfg.checkConfigForkOrder = .ok ()
  compatible : c.checkCompatible newcfg height = none
  below : n ≤ height.toNat
  differ : ¬SameRules c newcfg n

/-- Catalyst is dropped; Petersburg is moved to Constantinople's block, and is put off although it
was active with Constantinople; the chain id is changed between EIP-155 and EIP-158.
-/
theorem checkCompatible_misses
    : Missed { sampleConfig with catalystBlock := some 3 } sampleConfig 10 5
      ∧ Missed { sampleConfig with petersburgBlock := some 110 }
          { sampleConfig with petersburgBlock := some 105 } 200 107
      ∧ Missed sampleConfig { sampleConfig with petersburgBlock := some 300 } 200 107
      ∧ Missed sampleConfig { sampleConfig with chainID := some 2 } 50 50 := by
  refine ⟨⟨by decide, by decide, by decide, by decide, ?_⟩,
    ⟨by decide, by decide, by decide, by decide, ?_⟩,
    ⟨by decide, by decide, by decide, by decide, ?_⟩,
    ⟨by decide, by decide, by decide, by decide, ?_⟩⟩
  · exact fun same => absurd same.catalyst (by decide)
  · exact fun same => absurd same.petersburg (by decide)
  · exact fun same => absurd same.petersburg (by decide)
  · exact fun same => absurd (same.chainID (by decide)) (by decide)

/-! The search for the lowest conflict. -/

theorem not_forked_of_compatible (compatible : isForkIncompatible s1 s2 (some n) = false)
    (apart : s1 ≠ s2)
    : isForked s1 (some n) = false ∧ isForked s2 (some n) = false := by
  rw [← Bool.not_eq_true, isForkIncompatible_iff] at compatible
  constructor
  · exact Bool.eq_false_iff.mpr fun active => compatible ⟨.inl active, apart⟩
  · exact Bool.eq_false_iff.mpr fun active => compatible ⟨.inr active, apart⟩

/-- An error rewinds no further than to the last block before both forks. -/
theorem le_newCompatError_rewindTo {what : String} {stored new : Option Int}
    (before : isForked stored (some n) = false ∧ isForked new (some n) = false)
    (forked : isForked stored (some head.toNat) = true ∨ isForked new (some head.toNat) = true)
    : n ≤ (newCompatError what stored new).rewindTo.toNat := by
  obtain ⟨rew, found, bound⟩ := rewindBlock_le forked
  have above : (n : Int) < rew := by
    unfold rewindBlock at found
    simp only [← Bool.not_eq_true, isForked_iff] at before
    grind
  have small := head.toNat_lt
  have one : (1 : UInt64).toNat = 1 := rfl
  simp only [newCompatError, found, if_pos (show 0 < rew by omega)]
  rw [UInt64.toNat_sub_of_le, UInt64.toNat_ofNat']
  · omega
  · rw [UInt64.le_iff_toNat_le, UInt64.toNat_ofNat']
    omega

/-- Where Petersburg is scheduled, Constantinople is active by then. -/
def ChainConfig.PetersburgInOrder (c : ChainConfig) : Prop :=
  ∀ block, c.petersburgBlock = some block → isForked c.constantinopleBlock (some block) = true

/-- A block without a conflict is not above the one to rewind to. -/
theorem ChainConfig.le_rewindTo (ordered : c.PetersburgInOrder)
    (free : c.checkCompatibleAt newcfg (some n) = none)
    (failed : c.checkCompatibleAt newcfg (some head.toNat) = some err)
    : n ≤ err.rewindTo.toNat := by
  obtain ⟨check, found, rfl⟩ := Option.map_eq_some_iff.mp failed
  have fails := List.find?_some found
  have listed := List.mem_of_find?_eq_some found
  refine le_newCompatError_rewindTo ?_ (forked_of_fails listed fails)
  have pass := checks_pass free
  simp only [compatChecks, forkCheck, List.forall_mem_cons, List.not_mem_nil, false_implies,
    implies_true, and_true] at pass
  obtain ⟨homestead, daoFork, daoSupport, eip150, eip155, eip158, chainID, byzantium,
    constantinople, petersburg, istanbul, muirGlacier, berlin, london⟩ := pass
  simp only [compatChecks, forkCheck, List.mem_cons, List.not_mem_nil, or_false] at listed
  rcases listed with rfl | rfl | rfl | rfl | rfl | rfl | rfl | rfl | rfl | rfl | rfl | rfl
    | rfl | rfl
  case inr.inr.inl =>
      have differ := (Bool.and_eq_true_iff.mp fails).2
      have before : isForked c.daoForkBlock (some n) = false := by
        simpa [differ, isDAOFork] using daoSupport
      exact ⟨before, isForked_eq_of_compatible daoFork le_rfl ▸ before⟩
  case inr.inr.inr.inr.inr.inr.inl =>
      have differ := (Bool.and_eq_true_iff.mp fails).2
      have before : isForked c.eip158Block (some n) = false := by
        simpa [differ, isEIP158] using chainID
      exact ⟨before, isForked_eq_of_compatible eip158 le_rfl ▸ before⟩
  case inr.inr.inr.inr.inr.inr.inr.inr.inr.inl =>
      obtain ⟨own, stand⟩ := Bool.and_eq_true_iff.mp fails
      have apart := (isForkIncompatible_iff.mp own).2
      rcases Bool.and_eq_false_iff.mp petersburg with compatible | compatible
      · exact not_forked_of_compatible compatible apart
      · obtain ⟨earlier, new⟩ :=
          not_forked_of_compatible compatible (isForkIncompatible_iff.mp stand).2
        refine ⟨Bool.eq_false_iff.mpr fun active => ?_, new⟩
        obtain ⟨block, scheduled, reached⟩ := isForked_iff.mp active
        obtain ⟨other, isOther, le⟩ := isForked_iff.mp (ordered block scheduled)
        exact Bool.false_ne_true
          (earlier.symm.trans (isForked_iff.mpr ⟨other, isOther, le.trans reached⟩))
  all_goals exact not_forked_of_compatible (by assumption) (isForkIncompatible_iff.mp fails).2

/-- Where the search ends, and the conflicts it went through. -/
structure Rewound (c newcfg : ChainConfig) (head : UInt64) (err : ConfigCompatError) : Prop where
  below : err.rewindTo ≤ head
  free : err.rewindTo = 0 ∨ c.checkCompatibleAt newcfg (some err.rewindTo.toNat) = none
  conflicts
    : c.PetersburgInOrder → ∀ n, err.rewindTo.toNat < n → n ≤ head.toNat
        → c.checkCompatibleAt newcfg (some n) ≠ none

/-- One more round above. -/
theorem Rewound.step {first : ConfigCompatError}
    (failed : c.checkCompatibleAt newcfg (some head.toNat) = some first)
    (rewound : Rewound c newcfg first.rewindTo err)
    : Rewound c newcfg head err := by
  refine ⟨?_, rewound.free, fun ordered n above below free => ?_⟩
  · rcases checkCompatibleAt_rewindTo failed with lower | genesis
    · exact UInt64.le_trans rewound.below (UInt64.le_of_lt lower)
    · exact UInt64.le_trans (genesis ▸ rewound.below) UInt64.zero_le
  · exact rewound.conflicts ordered n above (le_rewindTo ordered free failed) free

/-- The loop goes down to a block without a conflict, or to the genesis block. -/
theorem ChainConfig.compatLoop_rewound {fuel : Nat} {last : ConfigCompatError}
    (run : c.compatLoop newcfg fuel (some last) last.rewindTo = some (some err))
    : Rewound c newcfg last.rewindTo err := by
  induction fuel generalizing last with
  | zero => cases run
  | succ fuel ih =>
    rw [compatLoop] at run
    have here
        (free : last.rewindTo = 0 ∨ c.checkCompatibleAt newcfg (some last.rewindTo.toNat) = none)
        : Rewound c newcfg last.rewindTo last :=
      ⟨UInt64.le_refl _, free, fun _ n above below => absurd below (Nat.not_le.mpr above)⟩
    rcases checked : c.checkCompatibleAt newcfg (some last.rewindTo.toNat) with _ | first
    · rw [checked] at run
      cases run
      exact here (.inr checked)
    · rw [checked] at run
      dsimp only at run
      split at run
      · rename_i stands
        cases run
        have same : err.rewindTo = first.rewindTo := Option.some.inj stands
        refine here (.inl ?_)
        rcases checkCompatibleAt_rewindTo checked with lower | genesis
        · exact absurd lower (same ▸ UInt64.lt_irrefl _)
        · exact same.trans genesis
      · exact (ih run).step checked

/-- The search ends below the head, where nothing conflicts or at the genesis block. It passes over
no block without a conflict, if the stored configuration has its Petersburg in order.
-/
theorem checkCompatible_rewinds (c newcfg : ChainConfig) (height : UInt64)
    : (c.compatLoop newcfg (height.toNat + 2) none height).isSome
      ∧ ∀ err, c.checkCompatible newcfg height = some err
        → c.checkCompatibleAt newcfg (some height.toNat) ≠ none
          ∧ (err.rewindTo < height ∨ err.rewindTo = 0)
          ∧ Rewound c newcfg height err := by
  refine ⟨c.compatLoop_isSome newcfg height, fun err failed => ?_⟩
  have loop := c.compatLoop_eq newcfg height
  rw [failed, compatLoop] at loop
  rcases checked : c.checkCompatibleAt newcfg (some height.toNat) with _ | first
  · rw [checked] at loop
    cases loop
  rw [checked] at loop
  have rewound := compatLoop_rewound loop
  refine ⟨Option.some_ne_none _, ?_, rewound.step checked⟩
  rcases checkCompatibleAt_rewindTo checked with lower | genesis
  · exact .inl (UInt64.lt_of_le_of_lt rewound.below lower)
  · exact .inr (UInt64.le_zero_iff.mp (genesis ▸ rewound.below))

/-- Byzantium is moved from a block that has passed. -/
theorem checkCompatible_rewinds_byzantium
    : ∃ err, sampleConfig.checkCompatible { sampleConfig with byzantiumBlock := some 90 } 200
      = some err
      ∧ Rewound sampleConfig { sampleConfig with byzantiumBlock := some 90 } 200 err := by
  refine ⟨newCompatError "Byzantium fork block" (some 100) (some 90), by decide, ?_⟩
  exact ((checkCompatible_rewinds _ _ 200).2 _ (by decide)).2.2

/-- With Petersburg before Constantinople, block 10 is free of conflicts and passed over. -/
theorem checkCompatible_passes_over
    : ∃ c newcfg : ChainConfig,
        (c.checkCompatible newcfg 60).map (·.rewindTo) = some 4
        ∧ c.checkCompatibleAt newcfg (some 10) = none := by
  refine ⟨{ constantinopleBlock := some 50, petersburgBlock := some 5 },
    { constantinopleBlock := some 50, petersburgBlock := some 100 }, ?_, ?_⟩
  · decide
  · decide

end GoBinacoin.Params
