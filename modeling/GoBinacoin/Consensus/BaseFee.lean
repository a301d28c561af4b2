import GoBinacoin.Consensus.Misc

/-! The base fee along a chain of headers from the London block on. -/

namespace GoBinacoin.Consensus

open Params Types

/-- Headers from the first London block on, newest first, each accepted after its parent. -/
inductive LondonChain (config : ChainConfig) : List Header → Prop where
  | first {header : Header} (london : config.isLondon (some header.number) = true)
      (fee : header.baseFee = some initialBaseFee) (used : header.gasUsed ≤ header.gasLimit)
      (limit : 5000 ≤ header.gasLimit)
      : LondonChain config [header]
  | next {header parent : Header} {ancestors : List Header}
      (chain : LondonChain config (parent :: ancestors))
      (number : header.number = parent.number + 1) (used : header.gasUsed ≤ header.gasLimit)
      (accepted : verifyEip1559Header config parent header = .ok ())
      : LondonChain config (header :: parent :: ancestors)

theorem le_of_verifyGaslimit {parentGasLimit headerGasLimit : UInt64}
    (accepted : verifyGaslimit parentGasLimit headerGasLimit = .ok ())
    : 5000 ≤ headerGasLimit := by
  by_contra low
  have below : headerGasLimit < minGasLimit := UInt64.not_le.mp low
  simp only [verifyGaslimit, if_pos below] at accepted
  split_ifs at accepted

variable {config : ChainConfig} {parent header : Header} {used target fee : Nat}

/-- An accepted header has a gas limit above the minimum, and the fee that its parent asks for. -/
theorem verifyEip1559Header_ok (accepted : verifyEip1559Header config parent header = .ok ())
    : 5000 ≤ header.gasLimit
      ∧ ∃ fee, header.baseFee = some fee ∧ calcBaseFee config parent = .ok fee := by
  simp only [verifyEip1559Header, bind, Except.bind] at accepted
  split at accepted
  · cases accepted
  · rename_i checked
    have limited : 5000 ≤ header.gasLimit := by
      cases verified : verifyGaslimit (if (!config.isLondon (some parent.number)) = true then
          parent.gasLimit * elasticityMultiplier else parent.gasLimit) header.gasLimit with
      | error e =>
        rw [verified] at checked
        cases checked
      | ok _ => exact le_of_verifyGaslimit verified
    split at accepted
    · cases accepted
    · rename_i fee found
      split at accepted
      · cases accepted
      · rename_i expected computed
        split at accepted
        · cases accepted
        · rename_i same
          exact ⟨limited, fee, found, computed.trans (by rw [not_not.mp same])⟩

/-- How the fee moves after a block that used `used` gas, with `target` as its target. -/
structure FeeStep (used target fee next : Nat) : Prop where
  rises : target < used → fee + 1 ≤ next
  stays : used = target → next = fee
  falls : used < target → next ≤ fee
  floor : 7 ≤ fee → 7 ≤ next
  bounded : used ≤ 2 * target → next ≤ fee + max 1 (fee / 8) ∧ fee ≤ next + max 1 (fee / 8)

/-- A part of the fee, divided by eight, is at most an eighth of the fee. -/
theorem share_le {fee part target : Nat} (le : part ≤ target)
    : fee * part / target / 8 ≤ fee / 8 := by
  have scaled : fee * part ≤ target * fee := by
    rw [mul_comm target]
    exact Nat.mul_le_mul_left fee le
  exact Nat.div_le_div_right (Nat.div_le_of_le_mul scaled)

/-- The lower bound zero of the source is the one of natural numbers. -/
theorem toNat_sub_max (fee delta : Nat) : (max ((fee : Int) - delta) 0).toNat = fee - delta := by
  omega

/-- Above the target the fee rises, by one at least and an eighth at most. -/
theorem feeStep_above (above : target < used)
    : FeeStep used target fee (fee + max (fee * (used - target) / target / 8) 1) :=
  {
    rises := fun _ => by omega
    stays := fun same => by omega
    falls := fun below => by omega
    floor := fun high => by omega
    bounded := fun within => by
      have share : fee * (used - target) / target / 8 ≤ fee / 8 := share_le (by omega)
      omega
  }

/-- Below the target the fee falls, by an eighth at most. -/
theorem feeStep_below (below : used < target)
    : FeeStep used target fee (fee - fee * (target - used) / target / 8) := by
  have share : fee * (target - used) / target / 8 ≤ fee / 8 := share_le (Nat.sub_le target used)
  generalize fee * (target - used) / target / 8 = delta at share ⊢
  exact
    {
      rises := fun above => by omega
      stays := fun same => by omega
      falls := fun _ => by omega
      floor := fun high => by omega
      bounded := fun _ => by omega
    }

theorem feeStep_same : FeeStep target target fee fee :=
  {
    rises := fun above => by omega
    stays := fun _ => rfl
    falls := fun below => by omega
    floor := fun high => high
    bounded := fun _ => by omega
  }

/-- With a gas limit above the minimum, the next fee is defined and one step away. -/
theorem calcBaseFee_step
    (london : config.isLondon (some parent.number) = true) (paid : parent.baseFee = some fee)
    (limit : 5000 ≤ parent.gasLimit)
    : ∃ next, calcBaseFee config parent = .ok next
      ∧ FeeStep parent.gasUsed.toNat (parent.gasLimit.toNat / 2) fee next := by
  have target : (parent.gasLimit / elasticityMultiplier).toNat = parent.gasLimit.toNat / 2 :=
    UInt64.toNat_div _ _
  have limited : 5000 ≤ parent.gasLimit.toNat := UInt64.le_iff_toNat_le.mp limit
  have nonzero : parent.gasLimit / elasticityMultiplier ≠ 0 := by
    intro zero
    have : (parent.gasLimit / elasticityMultiplier).toNat = 0 := by rw [zero]; rfl
    omega
  simp only [calcBaseFee, london, paid, perTarget, if_neg nonzero, Bool.not_true,
    Bool.false_eq_true, if_false]
  rw [← target]
  split
  · rename_i same
    exact ⟨fee, rfl, same ▸ feeStep_same⟩
  · rename_i apart
    split
    · rename_i above
      refine ⟨_, rfl, ?_⟩
      rw [UInt64.toNat_sub_of_le _ _ (UInt64.le_of_lt above)]
      exact feeStep_above (UInt64.lt_iff_toNat_lt.mp above)
    · rename_i notAbove
      have below := UInt64.lt_of_le_of_ne (UInt64.not_lt.mp notAbove) apart
      refine ⟨_, rfl, ?_⟩
      rw [UInt64.toNat_sub_of_le _ _ (UInt64.le_of_lt below), toNat_sub_max]
      exact feeStep_below (UInt64.lt_iff_toNat_lt.mp below)

/-- What every header of the chain has: London's rules, a gas limit above the minimum, and a fee
that is at least 7.
-/
structure Priced (config : ChainConfig) (header : Header) : Prop where
  london : config.isLondon (some header.number) = true
  limit : 5000 ≤ header.gasLimit
  fee : ∃ fee, header.baseFee = some fee ∧ 7 ≤ fee

/-- An accepted header has a base fee again. -/
theorem Priced.next (priced : Priced config parent) (number : header.number = parent.number + 1)
    (accepted : verifyEip1559Header config parent header = .ok ())
    : Priced config header := by
  obtain ⟨limit, fee, found, computed⟩ := verifyEip1559Header_ok accepted
  obtain ⟨parentFee, paid, high⟩ := priced.fee
  obtain ⟨next, stepped, step⟩ := calcBaseFee_step priced.london paid priced.limit
  cases computed.symm.trans stepped
  exact
    {
      london := number ▸ isForked_mono (Nat.le_succ _) priced.london
      limit := limit
      fee := ⟨fee, found, step.floor high⟩
    }

/-- Every header of a chain that was verified step by step has a base fee. -/
theorem LondonChain.priced {headers : List Header} (chain : LondonChain config headers)
    : ∀ header ∈ headers, Priced config header := by
  induction chain with
  | first london fee _ limit =>
    intro header member
    cases List.mem_singleton.mp member
    exact ⟨london, limit, initialBaseFee, fee, by decide⟩
  | next chain number _ accepted ih =>
    intro header member
    rcases List.mem_cons.mp member with rfl | member
    · exact (ih _ List.mem_cons_self).next number accepted
    · exact ih header member

/-- After every header of such a chain the next base fee is defined, at least 7, and one bounded
step from the header's own; it is the fee of every child that is accepted.
-/
theorem baseFee_dynamics {config : ChainConfig} {headers : List Header}
    (chain : LondonChain config headers) (parent : Header) (member : parent ∈ headers)
    : ∃ fee next, parent.baseFee = some fee ∧ calcBaseFee config parent = .ok next
      ∧ 7 ≤ fee ∧ 7 ≤ next
      ∧ FeeStep parent.gasUsed.toNat (parent.gasLimit.toNat / 2) fee next
      ∧ ∀ child, verifyEip1559Header config parent child = .ok () → child.baseFee = some next := by
  have priced := chain.priced parent member
  obtain ⟨fee, paid, high⟩ := priced.fee
  obtain ⟨next, stepped, step⟩ := calcBaseFee_step priced.london paid priced.limit
  refine ⟨fee, next, paid, stepped, high, step.floor high, step, ?_⟩
  intro child accepted
  obtain ⟨-, childFee, found, computed⟩ := verifyEip1559Header_ok accepted
  cases computed.symm.trans stepped
  exact found

/-- A full block, and the header after it. -/
def fullHeader : Header :=
  { number := 5, gasLimit := 30000000, gasUsed := 30000000, baseFee := some 1000000000 }

def dearerHeader : Header :=
  { number := 6, gasLimit := 30000001, gasUsed := 0, baseFee := some 1125000000 }

/-- A full block raises the base fee by an eighth. -/
theorem baseFee_dynamics_full
    : verifyEip1559Header { londonBlock := some 5 } fullHeader dearerHeader = .ok ()
      ∧ ∃ fee next, dearerHeader.baseFee = some fee
        ∧ calcBaseFee { londonBlock := some 5 } dearerHeader = .ok next ∧ 7 ≤ fee ∧ 7 ≤ next
        ∧ FeeStep dearerHeader.gasUsed.toNat (dearerHeader.gasLimit.toNat / 2) fee next
        ∧ ∀ child, verifyEip1559Header { londonBlock := some 5 } dearerHeader child = .ok ()
          → child.baseFee = some next := by
  have accepted : verifyEip1559Header { londonBlock := some 5 } fullHeader dearerHeader
      = .ok () := by
    decide
  have chain : LondonChain { londonBlock := some 5 } [dearerHeader, fullHeader] :=
    .next (.first (by decide) rfl (by decide) (by decide)) rfl (by decide) accepted
  exact ⟨accepted, baseFee_dynamics chain dearerHeader List.mem_cons_self⟩

/-! The gas limit in exact integers. -/

theorem toInt64_neg_iff (x : UInt64) : x.toInt64 < 0 ↔ 2 ^ 63 ≤ x.toNat := by
  rw [Int64.lt_iff_toInt_lt]
  show x.toBitVec.toInt < 0 ↔ 2 ^ 63 ≤ x.toBitVec.toNat
  rw [BitVec.toInt_neg_iff]
  omega

/-- The check takes the distance of two limits the shorter way around the 64-bit integers. -/
theorem verifyGaslimit_ok_iff (p h : UInt64)
    : verifyGaslimit p h = .ok ()
      ↔ (if 2 ^ 63 ≤ (p - h).toNat then h - p else p - h).toNat < p.toNat / 1024
        ∧ 5000 ≤ h.toNat := by
  have distance : (if p.toInt64 - h.toInt64 < 0 then (p.toInt64 - h.toInt64) * -1
      else p.toInt64 - h.toInt64).toUInt64 = if 2 ^ 63 ≤ (p - h).toNat then h - p else p - h := by
    simp only [← UInt64.toInt64_sub, toInt64_neg_iff]
    split
    · rw [Int64.toUInt64_mul, UInt64.toUInt64_toInt64]
      show (p - h) * -1 = h - p
      grind
    · exact UInt64.toUInt64_toInt64 _
  have limit : (p / gasLimitBoundDivisor).toNat = p.toNat / 1024 := UInt64.toNat_div _ _
  have minimum : (minGasLimit).toNat = 5000 := rfl
  simp only [verifyGaslimit, distance, ge_iff_le, UInt64.le_iff_toNat_le, UInt64.lt_iff_toNat_lt,
    limit, minimum]
  split_ifs <;> simp <;> omega

/-- At the London block the limit of the parent counts twice. The check is exact unless the limits
are so far apart that the way around is the shorter one.
-/
theorem verifyGaslimit_exact_iff (parent header : UInt64) (transition : Bool)
    (parentCap : parent.toNat < 2 ^ 63) (headerCap : header.toNat < 2 ^ 63)
    : let p := if transition then 2 * parent.toNat else parent.toNat
      ((verifyGaslimit (if transition then parent * elasticityMultiplier else parent) header
          = .ok ()
        ↔ |(p : Int) - header.toNat| < (p / 1024 : Nat) ∧ 5000 ≤ header.toNat)
      ↔ header.toNat < 5000 ∨ p + p / 1024 ≤ 2 ^ 64 + header.toNat) := by
  intro p
  have exact : (if transition then parent * elasticityMultiplier else parent).toNat = p := by
    rcases transition with _ | _
    · rfl
    · have product : (parent * elasticityMultiplier).toNat = parent.toNat * 2 % 2 ^ 64 :=
        UInt64.toNat_mul _ _
      show (parent * elasticityMultiplier).toNat = 2 * parent.toNat
      omega
  generalize (if transition then parent * elasticityMultiplier else parent) = given at exact ⊢
  have bound := given.toNat_lt
  rw [verifyGaslimit_ok_iff, ← exact, abs_lt]
  split_ifs with wraps
  · rw [UInt64.toNat_sub] at wraps ⊢
    omega
  · rw [UInt64.toNat_sub] at wraps ⊢
    omega

/-- The limit of the parent counts twice at the London block. -/
theorem verifyGaslimit_exact_iff_london
    : verifyGaslimit (15000000 * elasticityMultiplier) 30029295 = .ok () := by
  have exact := (verifyGaslimit_exact_iff 15000000 30029295 true (by decide) (by decide)).mpr
    (.inr (by decide))
  exact exact.mpr (by decide)

/-- One block takes the gas limit from the cap to the minimum. -/
theorem verifyEip1559Header_accepts_drop
    : ∃ parent header : Header, parent.gasLimit = 0x7fffffffffffffff ∧ header.gasLimit = 5000
      ∧ verifyEip1559Header { londonBlock := some 5 } parent header = .ok () := by
  refine ⟨{ fullHeader with number := 4, gasLimit := 0x7fffffffffffffff },
    { fullHeader with gasLimit := 5000, baseFee := some initialBaseFee }, rfl, rfl, ?_⟩
  decide

/-! The gas limits that miners give their blocks. -/

def calcGasLimit (parentGasUsed parentGasLimit gasFloor gasCeil : UInt64) : UInt64 :=
  let contrib := (parentGasUsed + parentGasUsed / 2) / gasLimitBoundDivisor
  let decay := parentGasLimit / gasLimitBoundDivisor - 1
  let limit := parentGasLimit - decay + contrib
  let limit := if limit < minGasLimit then minGasLimit else limit
  if limit < gasFloor then
    let limit := parentGasLimit + decay
    if limit > gasFloor then gasFloor else limit
  else if limit > gasCeil then
    let limit := parentGasLimit - decay
    if limit < gasCeil then gasCeil else limit
  else limit

def calcGasLimit1559 (parentGasLimit desiredLimit : UInt64) : UInt64 :=
  let delta := parentGasLimit / gasLimitBoundDivisor - 1
  let desiredLimit := if desiredLimit < minGasLimit then minGasLimit else desiredLimit
  if parentGasLimit < desiredLimit then
    let limit := parentGasLimit + delta
    if limit > desiredLimit then desiredLimit else limit
  else if parentGasLimit > desiredLimit then
    let limit := parentGasLimit - delta
    if limit < desiredLimit then desiredLimit else limit
  else parentGasLimit

variable {p l : UInt64}

theorem verifyGaslimit_of_near (cap : p.toNat < 2 ^ 63) (low : l.toNat < 2 ^ 63)
    (lower : p.toNat < l.toNat + p.toNat / 1024) (upper : l.toNat < p.toNat + p.toNat / 1024)
    (minimum : 5000 ≤ l.toNat)
    : verifyGaslimit p l = .ok () := by
  refine (verifyGaslimit_ok_iff p l).mpr ⟨?_, minimum⟩
  split_ifs with wraps <;> rw [UInt64.toNat_sub] at wraps ⊢ <;> omega

/-- One step up or down from the limit. -/
theorem toNat_steps (minimum : 5000 ≤ p.toNat) (cap : p.toNat < 2 ^ 63)
    : (p + (p / gasLimitBoundDivisor - 1)).toNat = p.toNat + (p.toNat / 1024 - 1)
      ∧ (p - (p / gasLimitBoundDivisor - 1)).toNat = p.toNat - (p.toNat / 1024 - 1) := by
  simp only [gasLimitBoundDivisor, UInt64.toNat_add, UInt64.toNat_sub, UInt64.toNat_div,
    UInt64.reduceToNat]
  omega

theorem toNat_raised : (if l < minGasLimit then minGasLimit else l).toNat = max l.toNat 5000 := by
  have least : minGasLimit.toNat = 5000 := rfl
  split_ifs with low <;> rw [UInt64.lt_iff_toNat_lt] at low <;> omega

/-- From 5120 on, one step towards the ceiling stays within the bound of the check. -/
theorem calcGasLimit_accepted {used p floor ceil : UInt64} (full : used ≤ p)
    (minimum : 5120 ≤ p.toNat) (cap : p.toNat < 2 ^ 62) (ceiling : minGasLimit ≤ ceil)
    : verifyGaslimit p (calcGasLimit used p floor ceil) = .ok () := by
  have least : minGasLimit.toNat = 5000 := rfl
  unfold calcGasLimit
  extract_lets contrib decay limit raised above below
  obtain ⟨up, down⟩ : above.toNat = _ ∧ below.toNat = _ := toNat_steps (by omega) (by omega)
  rw [UInt64.le_iff_toNat_le] at full ceiling
  have share : contrib.toNat = (used.toNat + used.toNat / 2) / 1024 := by
    simp only [contrib, gasLimitBoundDivisor, UInt64.toNat_div, UInt64.toNat_add,
      UInt64.reduceToNat]
    omega
  have sum : limit.toNat = below.toNat + contrib.toNat := by
    rw [show limit.toNat = _ from UInt64.toNat_add below contrib]
    omega
  have atLeast : raised.toNat = _ := toNat_raised
  simp only [gt_iff_lt, UInt64.lt_iff_toNat_lt]
  split_ifs <;> apply verifyGaslimit_of_near <;> omega

/-- The limit that a miner computes is accepted from 5120 on. Below, the step is so short that a
full block leads out of it.
-/
theorem verifyGaslimit_calcGasLimit
    : (∀ used p floor ceil : UInt64, used ≤ p → 5120 ≤ p.toNat → p.toNat < 2 ^ 62
        → minGasLimit ≤ ceil → verifyGaslimit p (calcGasLimit used p floor ceil) = .ok ())
      ∧ ∀ ceil : UInt64, 5123 ≤ ceil
        → calcGasLimit 5119 5119 0 ceil = 5123 ∧ verifyGaslimit 5119 5123 ≠ .ok () := by
  refine ⟨fun _ _ _ _ => calcGasLimit_accepted, fun ceil ceiling => ⟨?_, by decide⟩⟩
  have inside : ¬(5123 : UInt64) > ceil := UInt64.not_lt.mpr ceiling
  exact if_neg inside

theorem verifyGaslimit_calcGasLimit_full
    : verifyGaslimit 5120 (calcGasLimit 5120 5120 0 8000000) = .ok ()
      ∧ verifyGaslimit 5119 (calcGasLimit 5119 5119 0 8000000) ≠ .ok () := by
  refine ⟨verifyGaslimit_calcGasLimit.1 _ _ _ _ (by decide) (by decide) (by decide) (by decide), ?_⟩
  obtain ⟨limit, rejected⟩ := verifyGaslimit_calcGasLimit.2 8000000 (by decide)
  rwa [limit]

variable {ceil : UInt64} (minimum : 5000 ≤ p.toNat) (cap : p.toNat < 2 ^ 63)
  (ceiling : ceil.toNat < 2 ^ 63)

include minimum cap ceiling

/-- One step takes the limit to the target, or closer to it. -/
theorem calcGasLimit1559_step
    : verifyGaslimit p (calcGasLimit1559 p ceil) = .ok ()
      ∧ 5000 ≤ (calcGasLimit1559 p ceil).toNat ∧ (calcGasLimit1559 p ceil).toNat < 2 ^ 63
      ∧ ((calcGasLimit1559 p ceil).toNat = max ceil.toNat 5000
        ∨ p < calcGasLimit1559 p ceil ∧ (calcGasLimit1559 p ceil).toNat ≤ max ceil.toNat 5000
        ∨ calcGasLimit1559 p ceil < p ∧ max ceil.toNat 5000 ≤ (calcGasLimit1559 p ceil).toNat) := by
  unfold calcGasLimit1559
  extract_lets delta desired above below
  obtain ⟨up, down⟩ : above.toNat = _ ∧ below.toNat = _ := toNat_steps minimum cap
  have target : desired.toNat = _ := toNat_raised
  simp only [gt_iff_lt, UInt64.lt_iff_toNat_lt]
  split_ifs <;> refine ⟨verifyGaslimit_of_near ?_ ?_ ?_ ?_ ?_, ?_, ?_, ?_⟩ <;> omega

/-- The limits of the blocks that a miner adds one after the other. -/
def minedLimit (ceil p : UInt64) : Nat → UInt64
  | 0 => p
  | n + 1 => calcGasLimit1559 (minedLimit ceil p n) ceil

/-- Every block brings the limit closer to the target, until it is there. -/
theorem minedLimit_closer (n : Nat)
    : let target := max ceil.toNat 5000
      let limit := (minedLimit ceil p n).toNat
      5000 ≤ limit ∧ limit < 2 ^ 63
      ∧ (limit = target
        ∨ limit - target + (target - limit) + n ≤ p.toNat - target + (target - p.toNat)) := by
  induction n with
  | zero => exact ⟨minimum, cap, .inr le_rfl⟩
  | succ n ih =>
    obtain ⟨above, below, rest⟩ := ih
    obtain ⟨-, above', below', step⟩ := calcGasLimit1559_step above below ceiling
    simp only [UInt64.lt_iff_toNat_lt] at step
    exact ⟨above', below', by unfold minedLimit; omega⟩

/-- Each of the limits is accepted behind the one before it, and they reach the miner's target. -/
theorem minedLimit_reaches_target (n : Nat)
    : let target := max ceil.toNat 5000
      verifyGaslimit (minedLimit ceil p n) (minedLimit ceil p (n + 1)) = .ok ()
      ∧ (p.toNat - target + (target - p.toNat) < n → (minedLimit ceil p n).toNat = target) := by
  obtain ⟨above, below, closer⟩ := minedLimit_closer minimum cap ceiling n
  exact ⟨(calcGasLimit1559_step above below ceiling).1, fun long => by omega⟩

omit minimum cap ceiling in
theorem minedLimit_reaches_target_raised : (minedLimit 6000 5000 1001).toNat = 6000 := by
  have run := @minedLimit_reaches_target 5000 6000 (by decide) (by decide) (by decide) 1001
  exact run.2 (by decide)

end GoBinacoin.Consensus
