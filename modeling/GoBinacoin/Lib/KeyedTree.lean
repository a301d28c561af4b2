import GoBinacoin.Lib.Ancestry

/-! Trees whose nodes name their parents by key, and stores that hold a part of such a tree together
with the total weight of every node and its ancestors.
-/

namespace Ancestry

/-- The nodes that can occur, by their keys: each but the root has a parent one level below it. -/
structure KeyedTree (β κ : Type) where
  key : β → κ
  parentKey : β → κ
  height : β → Nat
  find : κ → Option β
  root : β
  find_key : ∀ {k b}, find k = some b → key b = k
  find_root : find (key root) = some root
  root_height : height root = 0
  root_parent : find (parentKey root) = none
  bottom : ∀ {k b}, find k = some b → height b = 0 → b = root
  parent : ∀ {k b}, find k = some b → height b ≠ 0
    → ∃ p, find (parentKey b) = some p ∧ height b = height p + 1

variable {β κ : Type} {a b p : β}

namespace KeyedTree

variable (t : KeyedTree β κ)

def parentOf (b : β) : Option β :=
  (t.find (t.parentKey b)).filter fun p => t.height b = t.height p + 1

def Member (b : β) : Prop := t.find (t.key b) = some b

variable {t}

/-- The parent is found under its key, one level below. -/
theorem parentOf_eq_some
    : t.parentOf b = some p
      ↔ t.find (t.parentKey b) = some p ∧ t.height b = t.height p + 1 := by
  simp [parentOf, Option.filter_eq_some_iff]

/-- Heights grow by one from the parent. -/
theorem graded : Graded t.parentOf t.height := fun _ _ link => (parentOf_eq_some.mp link).2

theorem Member.of_find {k : κ} (found : t.find k = some b) : t.Member b := by
  rw [Member, t.find_key found]
  exact found

theorem Member.of_parentOf (link : t.parentOf b = some p) : t.Member p :=
  .of_find (parentOf_eq_some.mp link).1

theorem Member.root : t.Member t.root := t.find_root

/-- The root has no parent. -/
theorem root_parentOf : t.parentOf t.root = none := by
  rw [parentOf, t.root_parent]
  rfl

/-- The root is its only ancestor. -/
theorem ancestor_root : Ancestor t.parentOf t.root a ↔ a = t.root := by
  rw [ancestor_iff, root_parentOf]
  constructor
  · rintro (rfl | ⟨p, link, -⟩)
    · rfl
    · cases link
  · rintro rfl
    exact .inl rfl

theorem key_parent (link : t.parentOf b = some p) : t.key p = t.parentKey b :=
  t.find_key (parentOf_eq_some.mp link).1

/-- Every member but the root has a parent. -/
theorem Member.exists_parent (member : t.Member b) (above : t.height b ≠ 0)
    : ∃ p, t.parentOf b = some p := by
  obtain ⟨p, found, next⟩ := t.parent member above
  exact ⟨p, parentOf_eq_some.mpr ⟨found, next⟩⟩

/-- Members with the same key are the same. -/
theorem Member.key_inj (left : t.Member a) (right : t.Member b) (same : t.key a = t.key b)
    : a = b := by
  rw [Member, same, right] at left
  exact (Option.some.inj left).symm

/-- Ancestors of members are members. -/
theorem Member.ancestor (member : t.Member b) (above : Ancestor t.parentOf b a) : t.Member a := by
  induction above using Relation.ReflTransGen.head_induction_on with
  | refl => exact member
  | head link _ ih => exact ih (.of_parentOf link)

/-- A member has an ancestor at every height below it. -/
theorem Member.exists_ancestor (member : t.Member b) {n : Nat} (le : n ≤ t.height b)
    : ∃ a, Ancestor t.parentOf b a ∧ t.height a = n := by
  refine Ancestry.exists_ancestor graded ?_ le
  intro a above orphan
  by_contra positive
  obtain ⟨p, link⟩ := (member.ancestor above).exists_parent positive
  rw [orphan] at link
  cases link

end KeyedTree

/-- The stored nodes, under their keys and heights, are a part of the tree that is closed under
parents, with their total weights.
-/
structure Totals (t : KeyedTree β κ) (weight : β → Nat) (nodes : κ × Nat → Option β)
    (total : κ × Nat → Option Nat)
    : Prop where
  placed : ∀ {k b}, nodes k = some b → k = (t.key b, t.height b) ∧ t.Member b
  weighed : ∀ {b}, nodes (t.key b, t.height b) = some b
    → ∃ n, total (t.key b, t.height b) = some n
  known : ∀ {k n}, total k = some n → ∃ b, nodes k = some b
  parent : ∀ {b p}, nodes (t.key b, t.height b) = some b → t.parentOf b = some p
    → nodes (t.key p, t.height p) = some p
  sum : ∀ {b p n m}, nodes (t.key b, t.height b) = some b → t.parentOf b = some p
    → total (t.key b, t.height b) = some n → total (t.key p, t.height p) = some m
    → n = weight b + m

namespace Totals

variable {t : KeyedTree β κ} {weight : β → Nat} {nodes : κ × Nat → Option β}
  {total : κ × Nat → Option Nat}

variable (totals : Totals t weight nodes total) (stored : nodes (t.key b, t.height b) = some b)
include totals stored

theorem member : t.Member b := (totals.placed stored).2

/-- Ancestors of stored nodes are stored. -/
theorem ancestor (above : Ancestor t.parentOf b a) : nodes (t.key a, t.height a) = some a := by
  induction above using Relation.ReflTransGen.head_induction_on with
  | refl => exact stored
  | head link _ ih => exact ih (totals.parent stored link)

omit totals stored

/-- Totals grow along every branch. -/
theorem total_le (totals : Totals t weight nodes total)
    (positive : ∀ {b}, t.Member b → t.height b ≠ 0 → 0 < weight b)
    (stored : nodes (t.key b, t.height b) = some b) (above : Ancestor t.parentOf b a) {n m : Nat}
    (own : total (t.key b, t.height b) = some n) (other : total (t.key a, t.height a) = some m)
    : m ≤ n ∧ (a ≠ b → m < n) := by
  induction above using Relation.ReflTransGen.head_induction_on generalizing n with
  | refl =>
    rw [own] at other
    cases other
    exact ⟨Nat.le_refl _, fun ne => absurd rfl ne⟩
  | @head b p link rest ih =>
    have storedParent := totals.parent stored link
    obtain ⟨k, middle⟩ := totals.weighed storedParent
    have lower := (ih storedParent middle).1
    have sum := totals.sum stored link own middle
    have next := KeyedTree.graded link
    have added := positive (totals.member stored) (by omega)
    constructor <;> omega

/-- A parent with a total is stored. -/
theorem parent_of_total {m : Nat} (totals : Totals t weight nodes total) (member : t.Member b)
    (known : total (t.parentKey b, t.height b - 1) = some m)
    : ∃ p, t.parentOf b = some p ∧ nodes (t.key p, t.height p) = some p
      ∧ total (t.key p, t.height p) = some m := by
  obtain ⟨c, found⟩ := totals.known known
  obtain ⟨keyEq, memberC⟩ := totals.placed found
  have parentKey : t.find (t.parentKey b) = some c := by
    rw [(Prod.mk.inj keyEq).1]
    exact memberC
  have positive : t.height b ≠ 0 := by
    intro zero
    have orphan := t.root_parent
    rw [← t.bottom member zero, parentKey] at orphan
    cases orphan
  obtain ⟨p, link⟩ := member.exists_parent positive
  have same : p = c := by
    have other := (KeyedTree.parentOf_eq_some.mp link).1
    rw [parentKey] at other
    exact (Option.some.inj other).symm
  subst same
  rw [keyEq] at found known
  exact ⟨p, link, found, known⟩

variable [DecidableEq κ]

/-- The root alone. -/
theorem root (t : KeyedTree β κ) (weight : β → Nat)
    : Totals t weight (Function.update (fun _ => none) (t.key t.root, 0) (some t.root))
        (Function.update (fun _ => none) (t.key t.root, 0) (some (weight t.root))) := by
  have storedRoot {k : κ × Nat} {b : β}
      (stored : Function.update (fun _ => none) (t.key t.root, 0) (some t.root) k = some b)
      : k = (t.key t.root, 0) ∧ b = t.root := by
    rw [Function.update_apply] at stored
    split at stored
    · rename_i here
      exact ⟨here, (Option.some.inj stored).symm⟩
    · cases stored
  refine
    {
      placed := ?_
      weighed := ?_
      known := ?_
      parent := ?_
      sum := ?_
    }
  · intro k b stored
    obtain ⟨rfl, rfl⟩ := storedRoot stored
    exact ⟨by rw [t.root_height], KeyedTree.Member.root⟩
  · intro b stored
    rw [(storedRoot stored).1]
    exact ⟨_, Function.update_self ..⟩
  · intro k n total
    rw [Function.update_apply] at total
    split at total
    · rename_i here
      rw [here]
      exact ⟨_, Function.update_self ..⟩
    · cases total
  · intro b p stored link
    rw [(storedRoot stored).2, KeyedTree.root_parentOf] at link
    cases link
  · intro b p n m stored link
    rw [(storedRoot stored).2, KeyedTree.root_parentOf] at link
    cases link

/-- A child of a stored node joins with its total. -/
theorem write {m : Nat} (totals : Totals t weight nodes total) (member : t.Member b)
    (link : t.parentOf b = some p) (storedParent : nodes (t.key p, t.height p) = some p)
    (parentTotal : total (t.key p, t.height p) = some m)
    : Totals t weight (Function.update nodes (t.key b, t.height b) (some b))
        (Function.update total (t.key b, t.height b) (some (weight b + m))) := by
  have next := KeyedTree.graded link
  have apart {c : β} (memberC : t.Member c) (ne : c ≠ b)
      : (t.key c, t.height c) ≠ (t.key b, t.height b) :=
    fun same => ne (memberC.key_inj member (Prod.mk.inj same).1)
  have nodesAt (k : κ × Nat)
      : Function.update nodes (t.key b, t.height b) (some b) k
        = if k = (t.key b, t.height b) then some b else nodes k :=
    Function.update_apply ..
  have storedOr {c : β}
      (stored : Function.update nodes (t.key b, t.height b) (some b) (t.key c, t.height c) = some c)
      : c = b ∨ nodes (t.key c, t.height c) = some c := by
    rw [nodesAt] at stored
    split at stored
    · exact .inl (Option.some.inj stored).symm
    · exact .inr stored
  have stays {c : β} (stored : nodes (t.key c, t.height c) = some c)
      : Function.update nodes (t.key b, t.height b) (some b) (t.key c, t.height c) = some c := by
    by_cases same : c = b
    · rw [same, Function.update_self]
    · rw [Function.update_of_ne (apart (totals.member stored) same)]
      exact stored
  have totalAt {c : β} (memberC : t.Member c) (ne : c ≠ b)
      : Function.update total (t.key b, t.height b) (some (weight b + m)) (t.key c, t.height c)
        = total (t.key c, t.height c) :=
    Function.update_of_ne (apart memberC ne) ..
  refine
    {
      placed := ?_
      weighed := ?_
      known := ?_
      parent := ?_
      sum := ?_
    }
  · intro k c found
    rw [nodesAt] at found
    split at found
    · rename_i here
      cases found
      exact ⟨here, member⟩
    · exact totals.placed found
  · intro c stored
    by_cases same : c = b
    · rw [same, Function.update_self]
      exact ⟨_, rfl⟩
    · have old := (storedOr stored).resolve_left same
      rw [totalAt (totals.member old) same]
      exact totals.weighed old
  · intro k n found
    rw [nodesAt]
    split
    · exact ⟨b, rfl⟩
    · rename_i other
      rw [Function.update_of_ne other] at found
      exact totals.known found
  · intro c q stored link'
    rcases storedOr stored with rfl | old
    · rw [link] at link'
      cases link'
      exact stays storedParent
    · exact stays (totals.parent old link')
  · intro c q n k stored link' own above
    have memberQ := KeyedTree.Member.of_parentOf link'
    by_cases same : c = b
    · subst same
      rw [link] at link'
      cases link'
      have below : p ≠ c := by
        rintro rfl
        omega
      rw [Function.update_self] at own
      rw [totalAt memberQ below, parentTotal] at above
      cases own
      cases above
      rfl
    · have old := (storedOr stored).resolve_left same
      rw [totalAt (totals.member old) same] at own
      by_cases parentSame : q = b
      · -- The node was stored before, with the same total.
        subst parentSame
        rw [Function.update_self] at above
        cases above
        have storedBefore := totals.parent old link'
        obtain ⟨l, before⟩ := totals.weighed storedBefore
        rw [totals.sum old link' own before, totals.sum storedBefore link before parentTotal]
      · rw [totalAt memberQ parentSame] at above
        exact totals.sum old link' own above

end Totals

end Ancestry
