import GoBinacoin.Types.Header
import GoBinacoin.Lib.Ancestry
import Mathlib.Data.Finmap
import Mathlib.Order.Interval.Finset.Nat

/-! The canonical hashes by block number, and how those above a new head are deleted. -/

namespace GoBinacoin.Chain

/-- The canonical hashes in the database. -/
abbrev Canonical := Finmap fun _ : Nat => Hash

/-- The hash for a number, if there is one. -/
def index (canonical : Canonical) (number : Nat) : Option Hash := canonical.lookup number

/-- `ReadCanonicalHash`; an absent hash reads as zero. -/
def readCanonicalHash (canonical : Canonical) (number : Nat) : Hash :=
  (index canonical number).getD 0

/-- The loop over the canonical hashes from a number on, up to the first that is missing. -/
def assigned (canonical : Canonical) : Nat → Nat → List Nat
  | 0, _ => []
  | fuel + 1, i =>
      if readCanonicalHash canonical i = 0 then [] else i :: assigned canonical fuel (i + 1)

/-- Delete any canonical number assignments from a number on. -/
def deleteAbove (canonical : Canonical) (start : Nat) : Canonical :=
  (assigned canonical canonical.keys.card start).foldl (fun rest i => rest.erase i) canonical

theorem index_insert (canonical : Canonical) (number : Nat) (hash : Hash)
    : index (canonical.insert number hash)
      = Function.update (index canonical) number (some hash) := by
  funext n
  by_cases same : n = number
  · subst same
    rw [Function.update_self]
    exact Finmap.lookup_insert _
  · rw [Function.update_of_ne same]
    exact Finmap.lookup_insert_of_ne _ same

theorem index_single (number : Nat) (hash : Hash)
    : index ((∅ : Canonical).insert number hash)
      = Function.update (fun _ => none) number (some hash) := by
  have empty : index ∅ = fun _ => none := funext fun n => Finmap.lookup_empty n
  rw [index_insert, empty]

/-- No canonical hash is zero. -/
def Nonzero (canonical : Canonical) : Prop := ∀ n, index canonical n ≠ some 0

variable {canonical : Canonical} {n start : Nat}

section

variable (nonzero : Nonzero canonical)

include nonzero

/-- The zero hash stands for a number that is not marked. -/
theorem readCanonicalHash_eq_zero
    : readCanonicalHash canonical n = 0 ↔ index canonical n = none := by
  unfold readCanonicalHash
  rcases found : index canonical n with _ | hash
  · simp
  · refine ⟨fun zero => absurd found ?_, nofun⟩
    rw [show hash = 0 from zero]
    exact nonzero n

theorem Nonzero.insert (number : Nat) {hash : Hash} (full : hash ≠ 0)
    : Nonzero (canonical.insert number hash) := by
  intro n
  rw [index_insert]
  by_cases same : n = number
  · rw [same, Function.update_self]
    exact fun zero => full (Option.some.inj zero)
  · rw [Function.update_of_ne same]
    exact nonzero n

omit nonzero in
theorem Nonzero.empty : Nonzero ∅ := by
  intro n zero
  rw [index, Finmap.lookup_empty] at zero
  cases zero

omit nonzero in
/-- What is left after some numbers were erased. -/
theorem erase_all_lookup (numbers : List Nat) (canonical : Canonical) (n : Nat)
    : index (numbers.foldl (fun rest i => rest.erase i) canonical) n
      = if n ∈ numbers then none else index canonical n := by
  induction numbers generalizing canonical with
  | nil => simp
  | cons i numbers ih =>
    rw [List.foldl_cons, ih]
    by_cases same : n = i
    · subst same
      simp [index]
    · have kept : index (canonical.erase i) n = index canonical n := Finmap.lookup_erase_ne same
      rw [kept]
      simp [same]

/-- The numbers that are collected are those up to the first gap. -/
theorem mem_assigned {fuel start n : Nat}
    : n ∈ assigned canonical fuel start
      ↔ start ≤ n ∧ n < start + fuel
        ∧ ∀ m, start ≤ m → m ≤ n → index canonical m ≠ none := by
  induction fuel generalizing start with
  | zero =>
    simp only [assigned, List.not_mem_nil, false_iff]
    omega
  | succ fuel ih =>
    unfold assigned
    split
    · rename_i zero
      have missing := (readCanonicalHash_eq_zero nonzero).mp zero
      simp only [List.not_mem_nil, false_iff]
      rintro ⟨le, -, present⟩
      exact present start (Nat.le_refl _) le missing
    · rename_i full
      have found : index canonical start ≠ none :=
        fun missing => full ((readCanonicalHash_eq_zero nonzero).mpr missing)
      rw [List.mem_cons, ih]
      constructor
      · rintro (rfl | ⟨le, lt, present⟩)
        · refine ⟨Nat.le_refl _, by omega, ?_⟩
          intro m low high
          rwa [Nat.le_antisymm high low]
        · refine ⟨by omega, by omega, ?_⟩
          intro m low high
          by_cases first : m = start
          · rwa [first]
          · exact present m (by omega) high
      · rintro ⟨le, lt, present⟩
        by_cases first : n = start
        · exact .inl first
        · exact .inr ⟨by omega, by omega, fun m low high => present m (by omega) high⟩

omit nonzero in
/-- The loop ends at a missing hash: it cannot pass more numbers than there are entries. -/
theorem lt_of_assigned (le : start ≤ n)
    (present : ∀ m, start ≤ m → m ≤ n → index canonical m ≠ none)
    : n < start + canonical.keys.card := by
  have subset : Finset.Icc start n ⊆ canonical.keys := by
    intro m mem
    obtain ⟨low, high⟩ := Finset.mem_Icc.mp mem
    rw [Finmap.mem_keys]
    by_contra absent
    exact present m low high (Finmap.lookup_eq_none.mpr absent)
  have size := Finset.card_le_card subset
  rw [Nat.card_Icc] at size
  omega

/-- Deletion from a number on stops at the first gap. -/
theorem deleteAbove_lookup (start n : Nat)
    : index (deleteAbove canonical start) n
      = if start ≤ n ∧ ∀ m, start ≤ m → m ≤ n → index canonical m ≠ none then none
        else index canonical n := by
  unfold deleteAbove
  rw [erase_all_lookup]
  refine if_congr ?_ rfl rfl
  rw [mem_assigned nonzero]
  constructor
  · rintro ⟨le, -, present⟩
    exact ⟨le, present⟩
  · rintro ⟨le, present⟩
    exact ⟨le, lt_of_assigned le present, present⟩

theorem deleteAbove_below (below : n < start)
    : index (deleteAbove canonical start) n = index canonical n := by
  rw [deleteAbove_lookup nonzero, if_neg]
  rintro ⟨le, -⟩
  omega

/-- Deleting goes up to the first gap, so nothing is left above. -/
theorem deleteAbove_contiguous (top : Nat) (filled : ∀ m, m ≤ top → index canonical m ≠ none)
    (empty : ∀ m, top < m → index canonical m = none) (above : start ≤ n)
    : index (deleteAbove canonical start) n = none := by
  rw [deleteAbove_lookup nonzero]
  split
  · rfl
  · rename_i gap
    by_cases high : top < n
    · exact empty n high
    · exact absurd ⟨above, fun m _ le => filled m (by omega)⟩ gap

theorem deleteAbove_nonzero (start : Nat) : Nonzero (deleteAbove canonical start) := by
  intro n
  rw [deleteAbove_lookup nonzero]
  split
  · exact nofun
  · exact nonzero n

end

end GoBinacoin.Chain
