import GoBinacoin.Common.Types

/-! The chain configuration: when each fork is active, in which order the forks may be scheduled,
and whether a node with blocks may go on under another configuration.
-/

namespace GoBinacoin.Params

/-- `ChainConfig` without the settings of the consensus engines. A block that is absent is a fork
that is not scheduled.
-/
structure ChainConfig where
  chainID : Option Int := none
  homesteadBlock : Option Int := none
  daoForkBlock : Option Int := none
  daoForkSupport : Bool := false
  eip150Block : Option Int := none
  eip150Hash : Hash := 0
  eip155Block : Option Int := none
  eip158Block : Option Int := none
  byzantiumBlock : Option Int := none
  constantinopleBlock : Option Int := none
  petersburgBlock : Option Int := none
  istanbulBlock : Option Int := none
  muirGlacierBlock : Option Int := none
  berlinBlock : Option Int := none
  londonBlock : Option Int := none
  catalystBlock : Option Int := none
  deriving DecidableEq

def isForked (s head : Option Int) : Bool :=
  match s, head with
  | some s, some head => s ≤ head
  | _, _ => false

def configNumEqual (x y : Option Int) : Bool :=
  match x, y with
  | none, none => true
  | some x, some y => x = y
  | _, _ => false

def isForkIncompatible (s1 s2 head : Option Int) : Bool :=
  (isForked s1 head || isForked s2 head) && !configNumEqual s1 s2

namespace ChainConfig

variable (c : ChainConfig) (num : Option Int)

def isHomestead : Bool := isForked c.homesteadBlock num

def isDAOFork : Bool := isForked c.daoForkBlock num

def isEIP150 : Bool := isForked c.eip150Block num

def isEIP155 : Bool := isForked c.eip155Block num

def isEIP158 : Bool := isForked c.eip158Block num

def isByzantium : Bool := isForked c.byzantiumBlock num

def isConstantinople : Bool := isForked c.constantinopleBlock num

def isMuirGlacier : Bool := isForked c.muirGlacierBlock num

/-- Without a block of its own, Petersburg starts with Constantinople. -/
def isPetersburg : Bool :=
  isForked c.petersburgBlock num
    || c.petersburgBlock.isNone && isForked c.constantinopleBlock num

def isIstanbul : Bool := isForked c.istanbulBlock num

def isBerlin : Bool := isForked c.berlinBlock num

def isLondon : Bool := isForked c.londonBlock num

def isCatalyst : Bool := isForked c.catalystBlock num

end ChainConfig

variable {s stored new : Option Int} {n : Int} {c newcfg : ChainConfig}

theorem isForked_iff : isForked s (some n) = true ↔ ∃ block, s = some block ∧ block ≤ n := by
  cases s <;> simp [isForked]

/-- A fork that is active at a block is active at every later one. -/
theorem isForked_mono {n m : Nat} (below : n ≤ m) (forked : isForked s (some n) = true)
    : isForked s (some m) = true := by
  obtain ⟨block, rfl, active⟩ := isForked_iff.mp forked
  exact isForked_iff.mpr ⟨block, rfl, by omega⟩

/-- A fork of `CheckConfigForkOrder`; an optional one may be absent before later forks. -/
structure Fork where
  name : String := ""
  block : Option Int := none
  optional : Bool := false

inductive ForkOrderError where
  | notEnabled (last cur : String) (block : Int)
  | outOfOrder (last : String) (lastBlock : Int) (cur : String) (block : Int)
  deriving DecidableEq

def ForkOrderError.error : ForkOrderError → String
  | .notEnabled last cur block =>
      s!"unsupported fork ordering: {last} not enabled, but {cur} enabled at {block}"
  | .outOfOrder last lastBlock cur block =>
      s!"unsupported fork ordering: {last} enabled at {lastBlock}, but {cur} enabled at {block}"

/-- The forks that `CheckConfigForkOrder` goes through; Catalyst is not among them. -/
def ChainConfig.forks (c : ChainConfig) : List Fork :=
  [
    { name := "homesteadBlock", block := c.homesteadBlock },
    { name := "daoForkBlock", block := c.daoForkBlock, optional := true },
    { name := "eip150Block", block := c.eip150Block },
    { name := "eip155Block", block := c.eip155Block },
    { name := "eip158Block", block := c.eip158Block },
    { name := "byzantiumBlock", block := c.byzantiumBlock },
    { name := "constantinopleBlock", block := c.constantinopleBlock },
    { name := "petersburgBlock", block := c.petersburgBlock },
    { name := "istanbulBlock", block := c.istanbulBlock },
    { name := "muirGlacierBlock", block := c.muirGlacierBlock, optional := true },
    { name := "berlinBlock", block := c.berlinBlock },
    { name := "londonBlock", block := c.londonBlock }
  ]

/-- One fork against the last one that counted. -/
def checkFork (lastFork cur : Fork) : Except ForkOrderError Unit :=
  if lastFork.name = "" then
    .ok ()
  else
    match lastFork.block, cur.block with
    | none, some block => .error (.notEnabled lastFork.name cur.name block)
    | some lastBlock, some block =>
        if lastBlock > block then
          .error (.outOfOrder lastFork.name lastBlock cur.name block)
        else
          .ok ()
    | _, none => .ok ()

def checkForkOrder (lastFork : Fork) : List Fork → Except ForkOrderError Unit
  | [] => .ok ()
  | cur :: rest => do
      checkFork lastFork cur
      checkForkOrder (if !cur.optional || cur.block.isSome then cur else lastFork) rest

def ChainConfig.checkConfigForkOrder (c : ChainConfig) : Except ForkOrderError Unit :=
  checkForkOrder {} c.forks

structure ConfigCompatError where
  what : String
  storedConfig : Option Int
  newConfig : Option Int
  rewindTo : UInt64
  deriving DecidableEq

/-- The earlier of the two blocks. -/
def rewindBlock (storedblock newblock : Option Int) : Option Int :=
  match storedblock, newblock with
  | none, newblock => newblock
  | some stored, none => some stored
  | some stored, some new => if stored < new then some stored else some new

def newCompatError (what : String) (storedblock newblock : Option Int) : ConfigCompatError :=
  {
    what := what
    storedConfig := storedblock
    newConfig := newblock
    rewindTo :=
      match rewindBlock storedblock newblock with
      | some rew => if 0 < rew then UInt64.ofNat rew.toNat - 1 else 0
      | none => 0
  }

/-- A check of `checkCompatible`: whether it fails, and what its error tells then. -/
structure CompatCheck where
  fails : Bool
  what : String
  stored : Option Int
  new : Option Int

/-- The check of a fork with nothing but its block. -/
def forkCheck (what : String) (stored new head : Option Int) : CompatCheck :=
  { fails := isForkIncompatible stored new head, what := what, stored := stored, new := new }

def ChainConfig.compatChecks (c newcfg : ChainConfig) (head : Option Int) : List CompatCheck :=
  [
    forkCheck "Homestead fork block" c.homesteadBlock newcfg.homesteadBlock head,
    forkCheck "DAO fork block" c.daoForkBlock newcfg.daoForkBlock head,
    {
      fails := c.isDAOFork head && c.daoForkSupport != newcfg.daoForkSupport
      what := "DAO fork support flag"
      stored := c.daoForkBlock
      new := newcfg.daoForkBlock
    },
    forkCheck "EIP150 fork block" c.eip150Block newcfg.eip150Block head,
    forkCheck "EIP155 fork block" c.eip155Block newcfg.eip155Block head,
    forkCheck "EIP158 fork block" c.eip158Block newcfg.eip158Block head,
    {
      fails := c.isEIP158 head && !configNumEqual c.chainID newcfg.chainID
      what := "EIP158 chain ID"
      stored := c.eip158Block
      new := newcfg.eip158Block
    },
    forkCheck "Byzantium fork block" c.byzantiumBlock newcfg.byzantiumBlock head,
    forkCheck "Constantinople fork block" c.constantinopleBlock newcfg.constantinopleBlock head,
    -- Petersburg may be set in the past where the stored Constantinople was.
    {
      fails :=
        isForkIncompatible c.petersburgBlock newcfg.petersburgBlock head
          && isForkIncompatible c.constantinopleBlock newcfg.petersburgBlock head
      what := "Petersburg fork block"
      stored := c.petersburgBlock
      new := newcfg.petersburgBlock
    },
    forkCheck "Istanbul fork block" c.istanbulBlock newcfg.istanbulBlock head,
    forkCheck "Muir Glacier fork block" c.muirGlacierBlock newcfg.muirGlacierBlock head,
    forkCheck "Berlin fork block" c.berlinBlock newcfg.berlinBlock head,
    forkCheck "London fork block" c.londonBlock newcfg.londonBlock head
  ]

/-- The unexported `checkCompatible`: the error of the first check that fails at a head. -/
def ChainConfig.checkCompatibleAt (c newcfg : ChainConfig) (head : Option Int)
    : Option ConfigCompatError :=
  ((c.compatChecks newcfg head).find? (·.fails)).map fun check =>
    newCompatError check.what check.stored check.new

/-- The loop of `CheckCompatible`: rewind until nothing conflicts or the rewinding stands still.
The outer `none` is a loop that its fuel cut off.
-/
def ChainConfig.compatLoop (c newcfg : ChainConfig)
    : Nat → Option ConfigCompatError → UInt64 → Option (Option ConfigCompatError)
  | 0, _, _ => none
  | fuel + 1, lasterr, bhead =>
      match c.checkCompatibleAt newcfg (some bhead.toNat) with
      | none => some lasterr
      | some err =>
          if lasterr.map (·.rewindTo) = some err.rewindTo then
            some lasterr
          else
            c.compatLoop newcfg fuel (some err) err.rewindTo

@[simp]
theorem configNumEqual_iff {x y : Option Int} : configNumEqual x y = true ↔ x = y := by
  cases x <;> cases y <;> simp [configNumEqual]

theorem isForkIncompatible_iff {s1 s2 head : Option Int}
    : isForkIncompatible s1 s2 head = true
      ↔ (isForked s1 head = true ∨ isForked s2 head = true) ∧ s1 ≠ s2 := by
  rw [isForkIncompatible, Bool.and_eq_true, Bool.or_eq_true, Bool.not_eq_true', ne_eq,
    ← configNumEqual_iff, Bool.not_eq_true]

/-- Every check that fails is about a fork that one of the configurations has at the head. -/
theorem ChainConfig.forked_of_fails {head : Option Int}
    {check : CompatCheck} (listed : check ∈ c.compatChecks newcfg head) (fails : check.fails = true)
    : isForked check.stored head = true ∨ isForked check.new head = true := by
  simp only [compatChecks, forkCheck, List.mem_cons, List.not_mem_nil, or_false] at listed
  rcases listed with rfl | rfl | rfl | rfl | rfl | rfl | rfl | rfl | rfl | rfl | rfl | rfl
    | rfl | rfl
  case inr.inr.inl => exact .inl (Bool.and_eq_true_iff.mp fails).1
  case inr.inr.inr.inr.inr.inr.inl => exact .inl (Bool.and_eq_true_iff.mp fails).1
  case inr.inr.inr.inr.inr.inr.inr.inr.inr.inl =>
      exact (isForkIncompatible_iff.mp (Bool.and_eq_true_iff.mp fails).1).1
  all_goals exact (isForkIncompatible_iff.mp fails).1

/-- The block to rewind to is not above a block at which the fork is active. -/
theorem rewindBlock_le (forked : isForked stored (some n) = true ∨ isForked new (some n) = true)
    : ∃ rew, rewindBlock stored new = some rew ∧ rew ≤ n := by
  cases stored <;> cases new <;> simp only [isForked_iff, rewindBlock] at forked ⊢
  case none.none => simp at forked
  case none.some => simpa using forked
  case some.none => simpa using forked
  case some.some =>
      split
      all_goals
        simp only [Option.some.injEq, exists_eq_left'] at forked ⊢
        omega

/-- Each round goes down, or ends at the genesis block. -/
theorem newCompatError_rewindTo {what : String} {head : UInt64}
    (forked : isForked stored (some head.toNat) = true ∨ isForked new (some head.toNat) = true)
    : (newCompatError what stored new).rewindTo < head
      ∨ (newCompatError what stored new).rewindTo = 0 := by
  obtain ⟨rew, found, bound⟩ := rewindBlock_le forked
  simp only [newCompatError, found]
  split
  · rename_i positive
    have small := head.toNat_lt
    left
    rw [UInt64.lt_iff_toNat_lt, UInt64.toNat_sub_of_le, UInt64.toNat_ofNat']
    · have one : (1 : UInt64).toNat = 1 := rfl
      omega
    · rw [UInt64.le_iff_toNat_le, UInt64.toNat_ofNat']
      have one : (1 : UInt64).toNat = 1 := rfl
      omega
  · exact .inr rfl

theorem ChainConfig.checkCompatibleAt_rewindTo {head : UInt64}
    {err : ConfigCompatError} (failed : c.checkCompatibleAt newcfg (some head.toNat) = some err)
    : err.rewindTo < head ∨ err.rewindTo = 0 := by
  obtain ⟨check, found, rfl⟩ := Option.map_eq_some_iff.mp failed
  have fails := List.find?_some found
  exact newCompatError_rewindTo (forked_of_fails (List.mem_of_find?_eq_some found) fails)

variable (c newcfg)

/-- After the first error the head is where the error rewound to, so the next error rewinds
further or ends the loop at the genesis block.
-/
theorem ChainConfig.compatLoop_isSome_of_last {fuel : Nat}
    {last : ConfigCompatError} (enough : last.rewindTo.toNat < fuel)
    : (c.compatLoop newcfg fuel (some last) last.rewindTo).isSome := by
  induction fuel generalizing last with
  | zero => omega
  | succ fuel ih =>
    simp only [compatLoop, Option.map_some, Option.some.injEq]
    rcases checked : c.checkCompatibleAt newcfg (some last.rewindTo.toNat) with _ | err
    · rfl
    dsimp only
    split
    · rfl
    · rename_i moved
      apply ih
      rcases checkCompatibleAt_rewindTo checked with lower | genesis
      · have := UInt64.lt_iff_toNat_lt.mp lower
        omega
      · have apart : last.rewindTo.toNat ≠ 0 := fun zero =>
          moved (genesis.symm ▸ UInt64.toNat_inj.mp zero)
        have zero : err.rewindTo.toNat = 0 := genesis ▸ rfl
        omega

/-- Two rounds more than the height are enough for the loop. -/
theorem ChainConfig.compatLoop_isSome (height : UInt64)
    : (c.compatLoop newcfg (height.toNat + 2) none height).isSome := by
  rw [compatLoop]
  rcases checked : c.checkCompatibleAt newcfg (some height.toNat) with _ | err
  · rfl
  apply compatLoop_isSome_of_last
  rcases checkCompatibleAt_rewindTo checked with lower | genesis
  · have := UInt64.lt_iff_toNat_lt.mp lower
    omega
  · rw [genesis]
    exact Nat.succ_pos _

/-- `CheckCompatible`. Its loop ends by itself, so the fuel does not show. -/
def ChainConfig.checkCompatible (c newcfg : ChainConfig) (height : UInt64)
    : Option ConfigCompatError :=
  (c.compatLoop newcfg (height.toNat + 2) none height).get (c.compatLoop_isSome newcfg height)

end GoBinacoin.Params
