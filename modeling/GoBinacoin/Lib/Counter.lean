import Mathlib.Data.List.Count
import Mathlib.Data.List.Perm.Basic
import Mathlib.Logic.Function.Basic

/-! Counting what a list holds under each key, and maps that keep such counts. A key that does
not occur has no entry in the map; an element without a key is not counted.
-/

namespace Counter

variable {α κ : Type} [DecidableEq κ]

/-- What one element contributes to the count of a key. -/
def weight (own : Option κ) (k : κ) : Nat := if own = some k then 1 else 0

/-- The number of elements under a key. -/
def tally (key : α → Option κ) (l : List α) (k : κ) : Nat := l.countP fun a => key a = some k

section Tally

variable {key : α → Option κ}

@[simp]
theorem weight_none (k : κ) : weight none k = 0 := rfl

theorem weight_pos {own : Option κ} {k : κ} (same : own = some k) : weight own k = 1 := if_pos same

@[simp]
theorem tally_nil (k : κ) : tally key [] k = 0 := rfl

/-- One more element counts for its own key. -/
@[simp]
theorem tally_cons (a : α) (l : List α) (k : κ)
    : tally key (a :: l) k = tally key l k + weight (key a) k := by
  simp [tally, weight, List.countP_cons]

@[simp]
theorem tally_append (l l' : List α) (k : κ)
    : tally key (l ++ l') k = tally key l k + tally key l' k :=
  List.countP_append

/-- The order does not matter. -/
theorem tally_perm {l l' : List α} (perm : l.Perm l') (k : κ) : tally key l k = tally key l' k :=
  perm.countP_eq _

/-- A member counts. -/
theorem weight_le_tally {a : α} {l : List α} (member : a ∈ l) (k : κ)
    : weight (key a) k ≤ tally key l k := by
  unfold weight
  split
  · rename_i own
    exact List.countP_pos_iff.mpr ⟨a, member, by simpa using own⟩
  · exact Nat.zero_le _

end Tally

omit [DecidableEq κ] in
/-- The element that is erased is the first one found. -/
theorem perm_eraseP {p : α → Bool} {l : List α} {x : α} (found : l.find? p = some x)
    : l.Perm (x :: l.eraseP p) := by
  obtain ⟨own, before, after, rfl, others⟩ := List.find?_eq_some_iff_append.mp found
  rw [List.eraseP_append_right _ (by simpa using others), List.eraseP_cons_of_pos own]
  exact List.perm_middle

/-- What a map of counts has for a number. -/
def entry (n : Nat) : Option Nat := if n = 0 then none else some n

/-- The map holds exactly these counts. -/
def Holds (m : κ → Option Nat) (f : κ → Nat) : Prop := ∀ k, m k = entry (f k)

variable {m : κ → Option Nat} {f : κ → Nat}

omit [DecidableEq κ] in
/-- A missing counter is zero. -/
theorem Holds.getD (holds : Holds m f) (k : κ) : (m k).getD 0 = f k := by
  rw [holds k, entry]
  split
  · rename_i zero
    exact zero.symm
  · rfl

/-- Writing the counter of one key. -/
theorem Holds.write (holds : Holds m f) (f' : κ → Nat) (k : κ) (others : ∀ j, j ≠ k → f' j = f j)
    : Holds (Function.update m k (entry (f' k))) f' := by
  intro j
  rw [Function.update_apply]
  split
  · rename_i same
    rw [same]
  · rename_i ne
    rw [holds j, others j ne]

end Counter
