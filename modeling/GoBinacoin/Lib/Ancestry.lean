import Mathlib.Logic.Relation
import Mathlib.Data.List.Chain
import Mathlib.Logic.Function.Basic

/-! Trees given by parent links: ancestors, the paths up to them, and an index of the ancestors of
one node by their height.
-/

namespace Ancestry

variable {β κ : Type}

/-- A parent is one level below its children. -/
def Graded (parent : β → Option β) (height : β → Nat) : Prop :=
  ∀ ⦃b p⦄, parent b = some p → height b = height p + 1

/-- A node is its own ancestor. -/
def Ancestor (parent : β → Option β) : β → β → Prop :=
  Relation.ReflTransGen fun b p => parent b = some p

variable {parent : β → Option β} {height : β → Nat} {a b p : β}

section

variable {a' : β}

theorem Ancestor.refl (b : β) : Ancestor parent b b := Relation.ReflTransGen.refl

theorem Ancestor.of_parent (link : parent b = some p) (above : Ancestor parent p a)
    : Ancestor parent b a :=
  Relation.ReflTransGen.head link above

theorem Ancestor.trans (first : Ancestor parent b p) (second : Ancestor parent p a)
    : Ancestor parent b a :=
  Relation.ReflTransGen.trans first second

/-- An ancestor is the node itself or an ancestor of its parent. -/
theorem ancestor_iff : Ancestor parent b a ↔ b = a ∨ ∃ p, parent b = some p ∧ Ancestor parent p a :=
  Relation.ReflTransGen.cases_head_iff

section

variable (graded : Graded parent height)

include graded

variable (above : Ancestor parent b a)
include above

/-- Heights fall on the way up to an ancestor. -/
theorem Ancestor.height_le : height a ≤ height b := by
  induction above using Relation.ReflTransGen.head_induction_on with
  | refl => exact Nat.le_refl _
  | head link _ ih =>
    have := graded link
    omega

/-- Of two ancestors of a node, the lower one is an ancestor of the other. -/
theorem Ancestor.of_le (above' : Ancestor parent b a') (le : height a ≤ height a')
    : Ancestor parent a' a := by
  induction above' using Relation.ReflTransGen.head_induction_on with
  | refl => exact above
  | @head b p link rest ih =>
    refine ih ?_
    rcases ancestor_iff.mp above with rfl | ⟨p', link', above⟩
    · have lower := height_le graded rest
      have := graded link
      omega
    · rw [link] at link'
      cases link'
      exact above

/-- An ancestor of the same height is the node itself. -/
theorem Ancestor.eq_of_height (same : height a = height b) : b = a := by
  rcases ancestor_iff.mp above with rfl | ⟨p, link, rest⟩
  · rfl
  · have lower := rest.height_le graded
    have := graded link
    omega

/-- There is one ancestor at each height. -/
theorem Ancestor.unique (above' : Ancestor parent b a') (same : height a = height a') : a = a' :=
  ((above.of_le graded above' (Nat.le_of_eq same)).eq_of_height graded same).symm

omit above

/-- There is an ancestor at every height, if nodes without a parent are at the bottom. -/
theorem exists_ancestor
    (grounded : ∀ a, Ancestor parent b a → parent a = none → height a = 0) {n : Nat}
    (le : n ≤ height b)
    : ∃ a, Ancestor parent b a ∧ height a = n := by
  generalize gap : height b - n = k
  induction k generalizing b with
  | zero => exact ⟨b, .refl b, by omega⟩
  | succ k ih =>
    rcases link : parent b with _ | p
    · have := grounded b (.refl b) link
      omega
    · have := graded link
      have below : ∀ a, Ancestor parent p a → parent a = none → height a = 0 :=
        fun a above => grounded a (above.of_parent link)
      obtain ⟨a, above, found⟩ := ih below (by omega) (by omega)
      exact ⟨a, above.of_parent link, found⟩

end

end

/-- The nodes from one node up to an ancestor, the ancestor left out. -/
inductive Path (parent : β → Option β) : β → List β → β → Prop where
  | nil (b : β) : Path parent b [] b
  | cons {b p a : β} {rest : List β} (link : parent b = some p) (path : Path parent p rest a)
    : Path parent b (b :: rest) a

section

variable {list : List β}

/-- A path ends at an ancestor. -/
theorem Path.ancestor (path : Path parent b list a) : Ancestor parent b a := by
  induction path with
  | nil b => exact .refl b
  | cons link _ ih => exact ih.of_parent link

/-- A path may be continued. -/
theorem Path.append {more : List β} {c : β} (path : Path parent b list a)
    (next : Path parent a more c)
    : Path parent b (list ++ more) c := by
  induction path with
  | nil b => exact next
  | cons link _ ih => exact .cons link (ih next)

/-- A path is as long as the heights differ. -/
theorem Path.height_eq (graded : Graded parent height) (path : Path parent b list a)
    : height b = height a + list.length := by
  induction path with
  | nil b => rfl
  | cons link _ ih =>
    have := graded link
    rw [List.length_cons]
    omega

/-- The nodes after one of which each is the parent of the next, from the last one on. -/
theorem Path.of_isChain (linked : (p :: list).IsChain fun p b => parent b = some p)
    : Path parent ((p :: list).getLast (List.cons_ne_nil _ _)) list.reverse p := by
  induction list generalizing p with
  | nil => exact .nil p
  | cons b rest ih =>
    obtain ⟨link, linkedRest⟩ := List.isChain_cons_cons.mp linked
    rw [List.getLast_cons (List.cons_ne_nil _ _), List.reverse_cons]
    exact (ih linkedRest).append (.cons link (.nil p))

/-- The nodes of a path are the ancestors of its lower end that lie above the upper one. -/
theorem Path.mem_iff (graded : Graded parent height) (path : Path parent b list a) {c : β}
    : c ∈ list ↔ Ancestor parent b c ∧ height a < height c := by
  induction path with
  | nil b =>
    refine ⟨nofun, ?_⟩
    rintro ⟨above, lower⟩
    have := above.height_le graded
    omega
  | @cons b p a rest link path ih =>
    rw [List.mem_cons, ih, ancestor_iff (b := b)]
    have step := graded link
    have bottom := path.height_eq graded
    constructor
    · rintro (rfl | ⟨above, lower⟩)
      · exact ⟨.inl rfl, by omega⟩
      · exact ⟨.inr ⟨p, link, above⟩, lower⟩
    · rintro ⟨rfl | ⟨p', link', above⟩, lower⟩
      · exact .inl rfl
      · rw [link] at link'
        cases link'
        exact .inr ⟨above, lower⟩

end

/-- An index by height gives the ancestors of a node. -/
def Marked (parent : β → Option β) (height : β → Nat) (key : β → κ) (index : Nat → Option κ)
    (b : β)
    : Prop :=
  ∀ a, Ancestor parent b a → index (height a) = some (key a)

section

variable {key : β → κ} {index index' : Nat → Option κ}

/-- The ancestors of a marked node are marked. -/
theorem Marked.ancestor (marked : Marked parent height key index b) (above : Ancestor parent b a)
    : Marked parent height key index a :=
  fun c further => marked c (above.trans further)

variable (graded : Graded parent height)
include graded

/-- Only the index up to the node matters. -/
theorem Marked.congr (marked : Marked parent height key index b)
    (same : ∀ n ≤ height b, index' n = index n)
    : Marked parent height key index' b := by
  intro a above
  rw [same _ (above.height_le graded)]
  exact marked a above

/-- Marking a child of a marked node. -/
theorem Marked.write (marked : Marked parent height key index p) (link : parent b = some p)
    : Marked parent height key (Function.update index (height b) (some (key b))) b := by
  intro a above
  rcases ancestor_iff.mp above with rfl | ⟨p', link', above⟩
  · exact Function.update_self ..
  · rw [link] at link'
    cases link'
    have lower := above.height_le graded
    have := graded link
    rw [Function.update_of_ne (by omega)]
    exact marked a above

/-- Writing a whole path marks its first node. -/
theorem Marked.writes {list : List β}
    (path : Path parent b list a) (marked : Marked parent height key index a)
    : Marked parent height key
        (list.foldr (fun b index => Function.update index (height b) (some (key b))) index) b := by
  induction path with
  | nil b => exact marked
  | cons link _ ih => exact (ih marked).write graded link

omit graded

/-- Writes leave the other heights alone. -/
theorem writes_apply_of_notMem {list : List β} {n : Nat} (apart : ∀ b ∈ list, height b ≠ n)
    : list.foldr (fun b index => Function.update index (height b) (some (key b))) index n
      = index n := by
  induction list with
  | nil => rfl
  | cons b list ih =>
    rw [List.foldr_cons, Function.update_of_ne (apart b List.mem_cons_self).symm]
    exact ih fun c mem => apart c (.tail _ mem)

end

end Ancestry
