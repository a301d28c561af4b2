import GoBinacoin.Consensus.Ethash
import GoBinacoin.Core.Accounting

/-! Uncles are paid once: what the seven ancestors that `VerifyUncles` looks at say about a whole
chain.
-/

namespace GoBinacoin.Consensus

open GoBinacoin.Core Params State Types Vm Program

variable {h : HeaderHashes}

/-- The reader has the blocks of a chain, and nothing before its genesis. -/
structure ChainReader.Serves (reader : ChainReader) (h : HeaderHashes) (chain : List Block) : Prop
    where
  header : ∀ block ∈ chain,
    reader.getHeader (h.blockHash block) (UInt64.ofNat block.header.number) = some block.header
  block : ∀ block ∈ chain,
    reader.getBlock (h.blockHash block) (UInt64.ofNat block.header.number) = some block
  genesis : ∀ block ∈ chain, block.header.number = 0
    → reader.getHeader block.header.parentHash (0 - 1) = none

/-- A chain, the newest block first, of which the engine checked the uncles of every block when the
older ones were at hand. That the header commits to the uncles is the check of `ValidateBody`.
-/
inductive Verified (h : HeaderHashes) (e : Ethash) (config : ChainConfig) : List Block → Prop where
  | genesis {block : Block} (number : block.header.number = 0) (uncles : block.uncles = [])
      (committed : block.header.uncleHash = h.calcUncleHash block.uncles)
      : Verified h e config [block]
  | extend {block parent : Block} {older : List Block} (reader : ChainReader) (unixNow : Int64)
      (chain : Verified h e config (parent :: older))
      (sameConfig : reader.config = config)
      (served : reader.Serves h (parent :: older))
      (linked : block.header.parentHash = h.blockHash parent)
      (number : block.header.number = parent.header.number + 1)
      (committed : block.header.uncleHash = h.calcUncleHash block.uncles)
      (accepted : e.verifyUncles h reader block unixNow = .ok ())
      : Verified h e config (block :: parent :: older)

variable {e : Ethash} {config : ChainConfig} {block : Block} {chain older : List Block}

theorem Verified.committed (verified : Verified h e config (block :: older))
    : block.header.uncleHash = h.calcUncleHash block.uncles := by
  cases verified with
  | genesis _ _ committed => exact committed
  | extend _ _ _ _ _ _ _ committed _ => exact committed

theorem Verified.tail {next : Block} (verified : Verified h e config (block :: next :: older))
    : Verified h e config (next :: older) := by
  cases verified with
  | extend _ _ chain => exact chain

/-- An older part of a verified chain is one. -/
theorem Verified.suffix (verified : Verified h e config chain) {recent : List Block}
    (split : chain = recent ++ block :: older)
    : Verified h e config (block :: older) := by
  induction recent generalizing chain with
  | nil =>
    rw [← List.nil_append (block :: older), ← split]
    exact verified
  | cons first rest ih =>
    subst split
    match rest, verified with
    | [], verified => exact verified.tail
    | _ :: _, verified => exact ih verified.tail rfl

variable {ancestor : Block} {n : Nat} {blocks : List Block} {unixNow : Int64}
  {uncles : List Header}

/-- Blocks of a verified chain are numbered from the genesis block on. -/
theorem Verified.number_at (verified : Verified h e config chain) {i : Nat}
    (found : chain[i]? = some ancestor)
    : ancestor.header.number + i + 1 = chain.length := by
  induction verified generalizing i ancestor with
  | genesis number =>
    cases i with
    | zero =>
      cases found
      rw [number]
      rfl
    | succ i => cases found
  | extend _ _ _ _ _ _ number _ _ inner =>
    cases i with
    | zero =>
      cases found
      have height := inner (i := 0) rfl
      rw [number, List.length_cons, ← height]
    | succ i =>
      have height := inner found
      rw [List.length_cons, ← height]
      rfl

theorem Verified.mem_take (verified : Verified h e config chain)
    (mem : ancestor ∈ chain) (recent : chain.length ≤ ancestor.header.number + n)
    : ancestor ∈ chain.take n := by
  obtain ⟨i, found⟩ := List.mem_iff_getElem?.mp mem
  have number := verified.number_at found
  refine List.mem_iff_getElem?.mpr ⟨i, ?_⟩
  rw [List.getElem?_take_of_lt (by omega), found]

theorem Verified.number_of_mem_take (verified : Verified h e config chain)
    (mem : ancestor ∈ chain.take n)
    : chain.length ≤ ancestor.header.number + n ∧ ancestor.header.number < chain.length := by
  obtain ⟨i, taken⟩ := List.mem_iff_getElem?.mp mem
  obtain ⟨near, found⟩ : i < n ∧ chain[i]? = some ancestor := by
    simpa [List.getElem?_take] using taken
  have number := verified.number_at found
  omega

/-- An ancestor and its uncles are noted. -/
def Family.note (h : HeaderHashes) (f : Family) (block : Block) : Family :=
  (f.addAncestor (h.blockHash block) block.header).addUncles h block.uncles

theorem uncles_of_empty (committed : block.header.uncleHash = h.calcUncleHash block.uncles)
    (empty : block.header.uncleHash = emptyUncleHash)
    : block.uncles = [] := by
  by_contra nonempty
  rw [committed, HeaderHashes.calcUncleHash, if_neg nonempty] at empty
  exact h.rlpHash_ne _ nonempty empty

variable {reader : ChainReader} {f : Family}

/-- One round of the loop over the ancestors. -/
theorem gather_succ (served : reader.Serves h chain) (mem : block ∈ chain)
    (committed : block.header.uncleHash = h.calcUncleHash block.uncles) (n : Nat) (f : Family)
    : gather h reader (n + 1) (h.blockHash block) (UInt64.ofNat block.header.number) f
      = gather h reader n block.header.parentHash (UInt64.ofNat block.header.number - 1)
          (f.note h block) := by
  rw [gather, served.header block mem]
  dsimp only
  split
  · rw [served.block block mem]
    rfl
  · rename_i empty
    have none := uncles_of_empty committed (not_not.mp empty)
    rw [Family.note, none, Family.addUncles, List.map_nil, List.toFinset_nil, Finset.union_empty]

/-- The loop notes the last ancestors of a block, in their order. -/
theorem gather_eq (verified : Verified h e config (block :: older))
    (served : reader.Serves h (block :: older)) (n : Nat) (f : Family)
    : gather h reader n (h.blockHash block) (UInt64.ofNat block.header.number) f
      = ((block :: older).take n).foldl (Family.note h) f := by
  induction n generalizing block older f with
  | zero => rfl
  | succ n ih =>
    rw [gather_succ served List.mem_cons_self verified.committed, List.take_succ_cons,
      List.foldl_cons]
    cases verified with
    | genesis number =>
      rw [number, List.take_nil, List.foldl_nil]
      cases n with
      | zero => rfl
      | succ n =>
        have missing : reader.getHeader block.header.parentHash (UInt64.ofNat 0 - 1) = none :=
          served.genesis block List.mem_cons_self number
        rw [gather, missing]
    | @extend _ parent _ _ _ chain _ _ linked number =>
      have previous : UInt64.ofNat block.header.number - 1
          = UInt64.ofNat parent.header.number := by
        rw [number, UInt64.ofNat_add]
        exact UInt64.add_sub_cancel _ _
      rw [linked, previous]
      exact ih chain
        {
          header := fun b mem => served.header b (.tail _ mem)
          block := fun b mem => served.block b (.tail _ mem)
          genesis := fun b mem => served.genesis b (.tail _ mem)
        } _

/-- What has been gathered from some blocks. -/
structure Gathered (h : HeaderHashes) (blocks : List Block) (f : Family) : Prop where
  uncles : ∀ block ∈ blocks, ∀ uncle ∈ block.uncles, h.hash uncle ∈ f.uncles
  ancestors : ∀ block ∈ blocks, (f.ancestors (h.blockHash block)).isSome
  blocks : ∀ hash header, f.ancestors hash = some header
    → ∃ block ∈ blocks, h.blockHash block = hash ∧ block.header = header

/-- What was gathered with one more block. -/
theorem Gathered.note (gathered : Gathered h blocks f)
    : Gathered h (blocks ++ [block]) (f.note h block) := by
  refine ⟨?_, ?_, ?_⟩
  · intro b mem uncle included
    rcases List.mem_append.mp mem with old | new
    · exact Finset.mem_union_left _ (gathered.uncles b old uncle included)
    · rw [List.mem_singleton.mp new] at included
      exact Finset.mem_union_right _ (List.mem_toFinset.mpr (List.mem_map_of_mem included))
  · intro b mem
    change (GoMap.set _ _ _ _).isSome
    rw [GoMap.set_apply]
    split
    · rfl
    · rename_i other
      rcases List.mem_append.mp mem with old | new
      · exact gathered.ancestors b old
      · exact absurd (congrArg h.blockHash (List.mem_singleton.mp new)) other
  · intro hash header found
    rcases GoMap.of_set found with ⟨rfl, rfl⟩ | older
    · exact ⟨block, by simp, rfl, rfl⟩
    · obtain ⟨b, mem, facts⟩ := gathered.blocks hash header older
      exact ⟨b, List.mem_append_left _ mem, facts⟩

theorem Gathered.foldl (gathered : Gathered h blocks f) (more : List Block)
    : Gathered h (blocks ++ more) (more.foldl (Family.note h) f) := by
  induction more generalizing blocks f with
  | nil => rwa [List.append_nil]
  | cons block rest ih =>
    have noted : Gathered h (blocks ++ [block]) (f.note h block) := gathered.note
    have next := ih noted
    rwa [List.append_assoc, List.singleton_append] at next

theorem gather_gathered (verified : Verified h e config (block :: older))
    (served : reader.Serves h (block :: older)) (n : Nat)
    : Gathered h ((block :: older).take n)
        (gather h reader n (h.blockHash block) (UInt64.ofNat block.header.number) {}) := by
  rw [gather_eq verified served]
  have start : Gathered h [] {} :=
    ⟨fun _ mem => (nomatch mem), fun _ mem => (nomatch mem), fun _ _ found => (nomatch found)⟩
  exact start.foldl _

/-! The uncles of one block. -/

/-- What the loop over the uncles of a block found about one of them. -/
structure Checked (h : HeaderHashes) (block : Block) (f : Family) (uncle : Header) : Prop where
  fresh : h.hash uncle ∉ f.uncles
  apart : f.ancestors (h.hash uncle) = none
  parent : ∃ parent, f.ancestors uncle.parentHash = some parent ∧ uncle.number = parent.number + 1
  notSibling : uncle.parentHash ≠ block.header.parentHash

/-- Accepted uncles are distinct, and each was checked. -/
theorem verifyEach_ok (accepted : e.verifyEach h reader block unixNow f uncles = .ok ())
    : (uncles.map h.hash).Nodup ∧ ∀ uncle ∈ uncles, Checked h block f uncle := by
  induction uncles generalizing f with
  | nil => exact ⟨List.nodup_nil, fun _ mem => (nomatch mem)⟩
  | cons uncle rest ih =>
    rw [Ethash.verifyEach] at accepted
    split at accepted
    · cases accepted
    rename_i fresh
    split at accepted
    · cases accepted
    rename_i apart
    split at accepted
    · cases accepted
    rename_i parent found
    split at accepted
    · cases accepted
    rename_i notSibling
    obtain ⟨_, header, others⟩ := except_bind_ok.mp accepted
    have follows := Ethash.verifyHeader_number h header
    obtain ⟨nodup, checked⟩ := ih others
    refine ⟨List.nodup_cons.mpr ⟨?_, nodup⟩, ?_⟩
    · intro again
      obtain ⟨other, mem, same⟩ := List.mem_map.mp again
      refine (checked other mem).fresh (Finset.mem_union_right _ ?_)
      rw [same]
      simp
    · intro other mem
      rcases List.mem_cons.mp mem with rfl | mem
      · exact ⟨fresh, Option.not_isSome_iff_eq_none.mp apart, ⟨parent, found, follows⟩, notSibling⟩
      · obtain ⟨notIn, apart, parent, notSibling⟩ := checked other mem
        exact ⟨fun old => notIn (Finset.mem_union_left _ old), apart, parent, notSibling⟩

/-- An uncle of a block on top of a chain. -/
structure Included (h : HeaderHashes) (block : Block) (older : List Block) (uncle : Header) : Prop
    where
  notAncestor : ∀ ancestor ∈ block :: older, ancestor.header ≠ uncle
  parent : ∃ parent ∈ older, h.blockHash parent = uncle.parentHash
    ∧ uncle.number = parent.header.number + 1
  notSibling : uncle.parentHash ≠ block.header.parentHash
  lower : block.header.number ≤ uncle.number + 6
  upper : uncle.number + 1 ≤ block.header.number

/-- What an accepted block says about its uncles. -/
theorem verifyUncles_ok (real : e.powMode ≠ .fullFake)
    (accepted : e.verifyUncles h reader block unixNow = .ok ())
    : block.uncles.length ≤ maxUncles ∧ (block.uncles.map h.hash).Nodup
      ∧ ∀ uncle ∈ block.uncles, Checked h block
          (((gather h reader 7 block.header.parentHash (UInt64.ofNat block.header.number - 1)
            {}).addAncestor (h.blockHash block) block.header).addUncles h [block.header])
          uncle := by
  rw [Ethash.verifyUncles, if_neg real] at accepted
  split at accepted
  · cases accepted
  rename_i few
  refine ⟨Nat.not_lt.mp few, ?_⟩
  split at accepted
  · rename_i empty
    rw [List.length_eq_zero_iff.mp empty]
    exact ⟨List.nodup_nil, fun _ mem => (nomatch mem)⟩
  · exact verifyEach_ok accepted

section Block

variable {parent : Block} (real : e.powMode ≠ .fullFake)
  (verified : Verified h e config (parent :: older)) (served : reader.Serves h (parent :: older))
  (linked : block.header.parentHash = h.blockHash parent)
  (number : block.header.number = parent.header.number + 1)
  (committed : block.header.uncleHash = h.calcUncleHash block.uncles)
  (accepted : e.verifyUncles h reader block unixNow = .ok ())

include verified served linked number in
theorem gather_parents
    : Gathered h ((parent :: older).take 7)
        (gather h reader 7 block.header.parentHash (UInt64.ofNat block.header.number - 1) {}) := by
  have previous : UInt64.ofNat block.header.number - 1 = UInt64.ofNat parent.header.number := by
    rw [number, UInt64.ofNat_add]
    exact UInt64.add_sub_cancel _ _
  rw [linked, previous]
  exact gather_gathered verified served 7

variable {uncle : Header}

include real committed accepted in
/-- The block itself stands among the ancestors, but no uncle can name it as its parent. -/
theorem uncle_parentHash_ne (mem : uncle ∈ block.uncles)
    : uncle.parentHash ≠ h.blockHash block := by
  have nonempty : block.uncles ≠ [] := List.ne_nil_of_mem mem
  rw [HeaderHashes.calcUncleHash, if_neg nonempty] at committed
  exact h.noCycle _ _ (verifyUncles_ok real accepted).1 committed uncle mem

include real verified served linked number committed accepted in
/-- An uncle of an accepted block is one that may be included. -/
theorem uncle_included (mem : uncle ∈ block.uncles) : Included h block (parent :: older) uncle := by
  have gathered := gather_parents verified served linked number
  obtain ⟨fresh, apart, ⟨found, known, follows⟩, notSibling⟩ :=
    (verifyUncles_ok real accepted).2.2 uncle mem
  have other := uncle_parentHash_ne real committed accepted mem
  have known' := (GoMap.of_set known).resolve_left fun same => other same.1
  obtain ⟨ancestor, near, hashed, rfl⟩ := gathered.blocks _ _ known'
  obtain ⟨recent, below⟩ := verified.number_of_mem_take near
  have height := verified.number_at (i := 0) rfl
  rw [List.length_cons] at recent below height
  -- the parent of the block is the only one among the seven with its number
  have notParent : ancestor.header.number ≠ older.length := by
    intro top
    have first := verified.mem_take (List.mem_of_mem_take near) (n := 1)
      (by rw [List.length_cons, top])
    rw [List.take_succ_cons, List.take_zero, List.mem_singleton] at first
    rw [first] at hashed
    exact notSibling (hashed.symm.trans linked.symm)
  refine ⟨?_, ⟨ancestor, List.mem_of_mem_take near, hashed, follows⟩, notSibling, by omega,
    by omega⟩
  intro b among same
  rcases List.mem_cons.mp among with rfl | among
  · refine fresh (Finset.mem_union_right _ ?_)
    rw [← same]
    simp
  · have recent : (parent :: older).length ≤ b.header.number + 7 := by
      rw [List.length_cons, same]
      omega
    have present := gathered.ancestors b (verified.mem_take among recent)
    rw [HeaderHashes.blockHash, same] at present
    change GoMap.set _ _ _ _ = none at apart
    rw [GoMap.set_apply] at apart
    split at apart
    · cases apart
    · rw [apart] at present
      cases present

include real verified served linked number accepted in
/-- What is an uncle of one of the seven blocks below is not one again. -/
theorem uncle_fresh (mem : uncle ∈ block.uncles) (near : ancestor ∈ (parent :: older).take 7)
    : uncle ∉ ancestor.uncles := by
  intro again
  refine ((verifyUncles_ok real accepted).2.2 uncle mem).fresh (Finset.mem_union_left _ ?_)
  exact (gather_parents verified served linked number).uncles ancestor near uncle again

end Block

/-- A verified block has few uncles, all of them near relatives. -/
theorem Verified.included (verified : Verified h e config (block :: older))
    (real : e.powMode ≠ .fullFake)
    : block.uncles.length ≤ maxUncles ∧ ∀ uncle ∈ block.uncles, Included h block older uncle := by
  cases verified with
  | genesis _ none =>
    rw [none]
    exact ⟨Nat.zero_le _, fun _ mem => (nomatch mem)⟩
  | extend _ _ chain _ served linked number committed accepted =>
    exact ⟨(verifyUncles_ok real accepted).1,
      fun _ mem => uncle_included real chain served linked number committed accepted mem⟩

/-- An uncle of the newest block is too young to be one of a block that the seven do not reach. -/
theorem Verified.nodup (verified : Verified h e config chain) (real : e.powMode ≠ .fullFake)
    : (chain.flatMap Block.uncles).Nodup := by
  induction verified with
  | genesis _ none => simp [none]
  | @extend block parent older reader unixNow chain _ served linked number committed accepted
      inner =>
    rw [List.flatMap_cons]
    refine List.nodup_append.mpr
      ⟨List.Nodup.of_map _ (verifyUncles_ok real accepted).2.1, inner, ?_⟩
    rintro uncle mem other among rfl
    obtain ⟨ancestor, ancestorMem, again⟩ := List.mem_flatMap.mp among
    have first := uncle_included real chain served linked number committed accepted mem
    obtain ⟨newer, rest, split⟩ := List.append_of_mem ancestorMem
    have second := ((chain.suffix split).included real).2 uncle again
    have recent : (parent :: older).length ≤ ancestor.header.number + 7 := by
      have height := chain.number_at (i := 0) rfl
      have lower := first.lower
      have upper := second.upper
      omega
    exact uncle_fresh real chain served linked number accepted mem
      (chain.mem_take ancestorMem recent) again

section Rewards

variable {B : Backend}

theorem blockReward_eq (config : ChainConfig) (number : Nat)
    : ∃ unit, 0 ≤ unit ∧ blockReward config number = 32 * unit := by
  rw [blockReward]
  split
  · exact ⟨62500000000000000, by decide, by decide⟩
  · split
    · exact ⟨93750000000000000, by decide, by decide⟩
    · exact ⟨156250000000000000, by decide, by decide⟩

/-- What a block pays for one uncle, to it and to the miner. -/
def unclePayment (reward : Int) (header uncle : Header) : Int :=
  uncleFactor header uncle * reward / 8 + reward / 32

/-- The total grows by what the uncles get, by induction on the uncles. -/
theorem totalBalance_rewardUncles (reward : Int) (header : Header) (uncles : List Header)
    (s : StateDB B) (miner : Int)
    : totalBalance (rewardUncles reward header uncles s miner).1
        + (rewardUncles reward header uncles s miner).2
      = totalBalance s + miner + (uncles.map (unclePayment reward header)).sum := by
  induction uncles generalizing s miner with
  | nil => simp [rewardUncles]
  | cons uncle rest ih =>
    rw [rewardUncles, ih, totalBalance_addBalance, List.map_cons, List.sum_cons, unclePayment]
    ring

variable {unit : Int} {header : Header}

/-- The share of an uncle is at most 29 of 32 parts. -/
theorem unclePayment_bounds (positive : 0 ≤ unit) {uncle : Header}
    (low : 2 ≤ uncleFactor header uncle) (high : uncleFactor header uncle ≤ 7)
    : 0 ≤ unclePayment (32 * unit) header uncle
      ∧ unclePayment (32 * unit) header uncle ≤ 29 * unit := by
  have share : uncleFactor header uncle * (32 * unit) / 8
      = 4 * (uncleFactor header uncle * unit) := by
    rw [show uncleFactor header uncle * (32 * unit) = 4 * (uncleFactor header uncle * unit) * 8
      by ring]
    exact Int.mul_ediv_cancel _ (by decide)
  have nephew : 32 * unit / 32 = unit := Int.mul_ediv_cancel_left _ (by decide)
  have lower : 0 ≤ uncleFactor header uncle * unit := Int.mul_nonneg (by omega) positive
  have upper : uncleFactor header uncle * unit ≤ 7 * unit :=
    Int.mul_le_mul_of_nonneg_right high positive
  rw [unclePayment, share, nephew]
  omega

/-- Two uncles at most are paid. -/
theorem payments_bounds (positive : 0 ≤ unit) (few : uncles.length ≤ maxUncles)
    (factors : ∀ uncle ∈ uncles, 2 ≤ uncleFactor header uncle ∧ uncleFactor header uncle ≤ 7)
    : 0 ≤ (uncles.map (unclePayment (32 * unit) header)).sum
      ∧ (uncles.map (unclePayment (32 * unit) header)).sum ≤ 58 * unit := by
  have bounds uncle (mem : uncle ∈ uncles) :=
    unclePayment_bounds positive (factors uncle mem).1 (factors uncle mem).2
  rcases uncles with _ | ⟨one, _ | ⟨two, _ | ⟨three, rest⟩⟩⟩
  · simp only [List.map_nil, List.sum_nil]
    omega
  · have first := bounds one (by simp)
    simp only [List.map_cons, List.map_nil, List.sum_cons, List.sum_nil]
    omega
  · have first := bounds one (by simp)
    have second := bounds two (by simp)
    simp only [List.map_cons, List.map_nil, List.sum_cons, List.sum_nil]
    omega
  · exact absurd few (by simp [maxUncles])

/-- A block issues its reward at least, and 90/32 of it at most. -/
theorem issuance_bounds (s : StateDB B) (few : uncles.length ≤ maxUncles)
    (factors : ∀ uncle ∈ uncles, 2 ≤ uncleFactor header uncle ∧ uncleFactor header uncle ≤ 7)
    (rewarded : config.isCatalyst (some header.number) = false)
    : blockReward config header.number
        ≤ totalBalance (accumulateRewards config s header uncles) - totalBalance s
      ∧ 32 * (totalBalance (accumulateRewards config s header uncles) - totalBalance s)
        ≤ 90 * blockReward config header.number := by
  obtain ⟨unit, positive, reward⟩ := blockReward_eq config header.number
  have payments := payments_bounds positive few factors
  have total := totalBalance_rewardUncles (32 * unit) header uncles s (32 * unit)
  rw [accumulateRewards, rewarded, if_neg Bool.false_ne_true]
  dsimp only
  rw [totalBalance_addBalance, reward]
  omega

/-- The money that the rewards of a block make. -/
def issued (config : ChainConfig) (s : StateDB B) (block : Block) : Int :=
  totalBalance (accumulateRewards config s block.header block.uncles) - totalBalance s

/-- Along a chain every uncle is paid once, and every block pays what it may. -/
theorem uncles_rewarded_once (h : HeaderHashes) (e : Ethash) (config : ChainConfig)
    (chain : List Block) (verified : Verified h e config chain) (real : e.powMode ≠ .fullFake)
    : (chain.flatMap Block.uncles).Nodup
      ∧ ∀ newer block older, chain = newer ++ block :: older →
        (∀ uncle ∈ block.uncles, Included h block older uncle
          ∧ 2 ≤ uncleFactor block.header uncle ∧ uncleFactor block.header uncle ≤ 7)
        ∧ ∀ s : StateDB B,
          (config.isCatalyst (some block.header.number) = false →
            blockReward config block.header.number ≤ issued config s block
            ∧ 32 * issued config s block ≤ 90 * blockReward config block.header.number)
          ∧ (config.isCatalyst (some block.header.number) = true → issued config s block = 0) := by
  refine ⟨verified.nodup real, ?_⟩
  intro newer block older split
  obtain ⟨few, included⟩ := (verified.suffix split).included real
  have factors : ∀ uncle ∈ block.uncles,
      2 ≤ uncleFactor block.header uncle ∧ uncleFactor block.header uncle ≤ 7 := by
    intro uncle mem
    have lower := (included uncle mem).lower
    have upper := (included uncle mem).upper
    rw [uncleFactor]
    omega
  refine ⟨fun uncle mem => ⟨included uncle mem, factors uncle mem⟩, fun s => ⟨?_, ?_⟩⟩
  · exact issuance_bounds s few factors
  · intro catalyst
    rw [issued, accumulateRewards, if_pos catalyst, Int.sub_self]

end Rewards

/-! A chain with an uncle. -/

/-- The two highest bits of a hash. -/
def highBits (x : Hash) : Nat := x.toNat / 2 ^ 254

/-- High bits that no parent of some uncles has. -/
def spareBits (uncles : List Header) : Nat :=
  if ∀ uncle ∈ uncles, highBits uncle.parentHash ≠ 1 then
    1
  else if ∀ uncle ∈ uncles, highBits uncle.parentHash ≠ 2 then
    2
  else
    3

theorem highBits_ofNat {high low : Nat} (small : high ≤ 3)
    : highBits (BitVec.ofNat 256 (high * 2 ^ 254 + low % 2 ^ 254)) = high := by
  rw [highBits, BitVec.toNat_ofNat]
  omega

theorem spareBits_le (uncles : List Header) : spareBits uncles ≤ 3 := by
  rw [spareBits]
  split_ifs <;> omega

/-- Some bits are left that no uncle of the block uses. -/
theorem spareBits_ne (few : uncles.length ≤ maxUncles) {uncle : Header} (mem : uncle ∈ uncles)
    : highBits uncle.parentHash ≠ spareBits uncles := by
  rw [spareBits]
  split_ifs with one two
  · exact one uncle mem
  · exact two uncle mem
  · intro three
    push Not at one two
    obtain ⟨first, firstMem, isOne⟩ := one
    obtain ⟨second, secondMem, isTwo⟩ := two
    have distinct : [uncle, first, second].Nodup := by
      rw [List.nodup_cons, List.nodup_cons, List.mem_cons, List.mem_singleton, List.mem_singleton]
      refine ⟨?_, ?_, List.nodup_singleton _⟩
      · rintro (rfl | rfl)
        · omega
        · omega
      · rintro rfl
        omega
    have all : [uncle, first, second] ⊆ uncles := by
      simp [mem, firstMem, secondMem]
    have longer := (List.subperm_of_subset distinct all).length_le
    exact absurd (longer.trans few) (Nat.not_succ_le_self 2)

/-- Hashes for a short chain: the number and the coinbase below two bits that are spare. -/
def sampleHashes : HeaderHashes where
  hash header := BitVec.ofNat 256
    (highBits header.uncleHash * 2 ^ 254
      + (header.number * 2 ^ 160 + header.coinbase.toNat) % 2 ^ 254)
  rlpHash uncles := BitVec.ofNat 256 (spareBits uncles * 2 ^ 254 + 0 % 2 ^ 254)
  rlpHash_ne uncles _ same := by
    have bits := congrArg highBits same
    rw [highBits_ofNat (spareBits_le uncles)] at bits
    have zero : highBits emptyUncleHash = 0 := by decide
    rw [spareBits, zero] at bits
    split_ifs at bits
  noCycle header uncles few committed uncle mem same := by
    have bits := congrArg highBits same
    have small : highBits header.uncleHash ≤ 3 := by
      rw [committed, highBits_ofNat (spareBits_le uncles)]
      exact spareBits_le uncles
    rw [highBits_ofNat small, committed, highBits_ofNat (spareBits_le uncles)] at bits
    exact spareBits_ne few mem bits

/-- The blocks of a list, by hash and number. -/
def sampleReader (config : ChainConfig) (chain : List Block) : ChainReader where
  config := config
  getHeader hash number := (chain.find? fun block =>
    sampleHashes.blockHash block = hash ∧ UInt64.ofNat block.header.number = number).map
      Block.header
  getBlock hash number := chain.find? fun block =>
    sampleHashes.blockHash block = hash ∧ UInt64.ofNat block.header.number = number

def sampleEthash (powMode : Mode) : Ethash where
  powMode := powMode
  hashimoto _ := (0, 0)

def sampleGenesis : Block where
  header := { difficulty := 131072, gasLimit := 5000, uncleHash := emptyUncleHash }

/-- A block on the genesis. -/
def sampleFirst (coinbase : Address) : Header where
  parentHash := sampleHashes.blockHash sampleGenesis
  uncleHash := emptyUncleHash
  coinbase := coinbase
  difficulty := 131136
  number := 1
  gasLimit := 5000
  time := 10

/-- A block with an uncle. -/
def sampleNephew (number : Nat) (parent : Hash) : Block where
  header :=
    { parentHash := parent, number := number, uncleHash := sampleHashes.rlpHash [sampleFirst 2] }
  uncles := [sampleFirst 2]

def sampleChain : List Block :=
  [sampleNephew 2 (sampleHashes.hash (sampleFirst 1)), { header := sampleFirst 1 }, sampleGenesis]

theorem sampleFirst_verified (powMode : Mode)
    : Verified sampleHashes (sampleEthash powMode) {}
        [{ header := sampleFirst 1 }, sampleGenesis] := by
  refine .extend (sampleReader {} [sampleGenesis]) 0 (.genesis rfl rfl rfl) rfl ?_ rfl rfl rfl ?_
  · constructor <;> decide +kernel
  · cases powMode <;> rfl

theorem sampleChain_verified (powMode : Mode) (fakes : powMode = .fake ∨ powMode = .fullFake)
    : Verified sampleHashes (sampleEthash powMode) {} sampleChain := by
  refine .extend (sampleReader {} [{ header := sampleFirst 1 }, sampleGenesis]) 0
    (sampleFirst_verified powMode) rfl ?_ rfl rfl rfl ?_
  · constructor <;> decide +kernel
  · rcases fakes with rfl | rfl
    · decide +kernel
    · rfl

/-- The uncle is paid seven eighths, and once. -/
theorem uncles_rewarded_once_sample
    : (sampleChain.flatMap Block.uncles).Nodup
      ∧ blockReward {} 2 ≤ issued {} plainState
        (sampleNephew 2 (sampleHashes.hash (sampleFirst 1))) := by
  obtain ⟨once, each⟩ := uncles_rewarded_once sampleHashes (sampleEthash .fake) {} sampleChain
    (sampleChain_verified .fake (.inl rfl)) (by decide)
  exact ⟨once, (((each [] _ _ rfl).2 plainState).1 rfl).1⟩

/-- With full faking a second nephew of the same uncle is accepted, and Catalyst blocks earn
nothing.
-/
theorem uncles_rewarded_twice
    : (∃ chain, Verified sampleHashes (sampleEthash .fullFake) {} chain
        ∧ ¬(chain.flatMap Block.uncles).Nodup)
      ∧ Verified sampleHashes (sampleEthash .fake) { catalystBlock := some 0 }
          [{ header := sampleFirst 1 }, sampleGenesis]
      ∧ issued { catalystBlock := some 0 } plainState { header := sampleFirst 1 } = 0 := by
  refine ⟨⟨sampleNephew 3 _ :: sampleChain, .extend (sampleReader {} sampleChain) 0
    (sampleChain_verified .fullFake (.inr rfl)) rfl ?_ rfl rfl rfl rfl, ?_⟩,
    .extend (sampleReader { catalystBlock := some 0 } [sampleGenesis]) 0 (.genesis rfl rfl rfl)
      rfl ?_ rfl rfl rfl rfl, ?_⟩
  · constructor <;> decide +kernel
  · decide +kernel
  · constructor <;> decide +kernel
  · rw [issued, accumulateRewards, if_pos (by decide), Int.sub_self]

end GoBinacoin.Consensus
