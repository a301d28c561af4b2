import GoBinacoin.Params.Config
import GoBinacoin.Vm.Machine

/-! The rules under which the EVM runs, from the chain configuration. -/

namespace GoBinacoin.Params

/-- `Rules`, as far as the EVM reads them. -/
def ChainConfig.rules (c : ChainConfig) (num : Option Int) : Vm.Rules :=
  {
    isHomestead := c.isHomestead num
    isEIP150 := c.isEIP150 num
    isEIP158 := c.isEIP158 num
    isByzantium := c.isByzantium num
    isConstantinople := c.isConstantinople num
    isPetersburg := c.isPetersburg num
    isIstanbul := c.isIstanbul num
    isBerlin := c.isBerlin num
    isLondon := c.isLondon num
  }

/-- Wherever the later fork is active, so is the earlier one. -/
def Fork.Precedes (earlier later : Fork) : Prop :=
  ∀ n : Int, isForked later.block (some n) = true → isForked earlier.block (some n) = true

/-- A fork that passes the check is not active before the last one. -/
theorem checkFork_ok {lastFork cur : Fork} (named : lastFork.name ≠ "")
    (checked : checkFork lastFork cur = .ok ())
    : lastFork.Precedes cur := by
  intro n active
  obtain ⟨block, found, le⟩ := isForked_iff.mp active
  rw [checkFork, if_neg named, found] at checked
  rcases last : lastFork.block with _ | lastBlock
  · rw [last] at checked
    cases checked
  · simp only [last] at checked
    split_ifs at checked with above
    exact isForked_iff.mpr ⟨lastBlock, rfl, by omega⟩

/-- All forks that pass are in order, but for optional ones. -/
theorem checkForkOrder_ok {lastFork : Fork} {forks : List Fork}
    (names : ∀ fork ∈ forks, fork.name ≠ "") (checked : checkForkOrder lastFork forks = .ok ())
    : (lastFork.name ≠ "" → ∀ fork ∈ forks, lastFork.Precedes fork)
      ∧ (forks.filter fun fork => !fork.optional).Pairwise Fork.Precedes := by
  induction forks generalizing lastFork with
  | nil => simp
  | cons cur rest ih =>
    obtain ⟨⟨⟩, this, others⟩ := Program.except_bind_ok.mp checked
    rw [List.forall_mem_cons] at names
    obtain ⟨behind, pairs⟩ := ih names.2 others
    rw [List.forall_mem_cons, List.filter_cons]
    -- An optional fork that is absent is passed over: the last one stays the same.
    split_ifs at behind with counts
    · have later := behind names.1
      refine ⟨fun named => ⟨checkFork_ok named this, fun fork member n active =>
        checkFork_ok named this n (later fork member n active)⟩, ?_⟩
      split
      · exact .cons (fun fork member => later fork (List.mem_of_mem_filter member)) pairs
      · exact pairs
    · refine ⟨fun named => ⟨checkFork_ok named this, behind named⟩, ?_⟩
      rwa [if_neg (by simp_all)]

/-- The rules of a chain whose forks passed the check are in order at every block. -/
theorem rules_ordered {c : ChainConfig} (checked : c.checkConfigForkOrder = .ok ()) (n : Nat)
    : (c.rules (some n)).Ordered := by
  have named : ∀ fork ∈ c.forks, fork.name ≠ "" := by simp [ChainConfig.forks]
  have chain : [_, _, _, _, _, _, _, _, _, _].IsChain _ :=
    ((checkForkOrder_ok named checked).2.imp fun precedes => precedes n).isChain
  simp only [List.isChain_cons_cons] at chain
  obtain ⟨eip150, eip155, eip158, byzantium, constantinople, petersburg, istanbul, berlin, london,
    -⟩ := chain
  have transitive : IsTrans Bool fun earlier later => later = true → earlier = true :=
    ⟨fun _ _ _ first second => first ∘ second⟩
  have merged : c.isPetersburg (some n) = true → c.isConstantinople (some n) = true := by
    simp only [ChainConfig.isPetersburg, Bool.or_eq_true, Bool.and_eq_true]
    exact Or.rec petersburg And.right
  have own : c.isIstanbul (some n) = true → c.isPetersburg (some n) = true :=
    fun active => Bool.or_eq_true_iff.mpr (.inl (istanbul active))
  exact List.isChain_iff_pairwise.mp (.cons_cons eip150 (.cons_cons (eip155 ∘ eip158)
    (.cons_cons byzantium (.cons_cons constantinople (.cons_cons merged (.cons_cons own
      (.cons_cons berlin (.cons_cons london (.singleton _)))))))))

theorem rules_ordered_sample
    : (({ homesteadBlock := some 1, eip150Block := some 2 } : ChainConfig).rules
        (some 1)).Ordered :=
  rules_ordered rfl 1

end GoBinacoin.Params
