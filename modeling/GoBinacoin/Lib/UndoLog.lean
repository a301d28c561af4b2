import Mathlib.Data.List.Basic
import Mathlib.Order.Nat

/-! Undo logs: a state carries a list of entries, newest first, and each entry knows how to
take back the change it records. Marks are lengths of the log. Everything is stated up to a
preorder on states, since undoing a change may leave caches and counters behind.
-/

namespace UndoLog

/-- How to read the log of a state and how to undo its newest entry. -/
structure System (σ ε : Type) where
  entries : σ → List ε
  undo : ε → σ → Option σ
  undo_entries
    : ∀ {entry rest state next},
        entries state = entry :: rest → undo entry state = some next → entries next = rest

variable {σ ε : Type} (L : System σ ε)

def System.depth (state : σ) : Nat := (L.entries state).length

/-- Undo the newest `count` entries. -/
def System.rewind : Nat → σ → Option σ
  | 0, state => some state
  | count + 1, state =>
      match L.entries state with
      | [] => none
      | entry :: _ => (L.undo entry state).bind (rewind count)

/-- Undo down to a mark. -/
def System.rewindTo (mark : Nat) (state : σ) : Option σ :=
  L.rewind (L.depth state - mark) state

variable {L}

@[simp]
theorem System.rewind_zero (state : σ) : L.rewind 0 state = some state := rfl

variable {entry : ε} {state next left right : σ} {mark : Nat}

theorem System.rewind_succ {rest : List ε} (count : Nat) (head : L.entries state = entry :: rest)
    : L.rewind (count + 1) state = (L.undo entry state).bind (L.rewind count) := by
  simp [rewind, head]

variable {count : Nat} {middle : σ}

/-- Rewinding drops exactly the undone entries; induction on their number. -/
theorem System.rewind_entries (run : L.rewind count state = some next)
    : L.entries next = (L.entries state).drop count := by
  induction count generalizing state with
  | zero => simp_all
  | succ count ih =>
    rcases head : L.entries state with _ | ⟨entry, rest⟩
    · simp [rewind, head] at run
    · rw [rewind_succ count head] at run
      obtain ⟨middle, undone, later⟩ := Option.bind_eq_some_iff.mp run
      rw [ih later, L.undo_entries head undone, List.drop_succ_cons]

/-- Rewinding in two parts. -/
theorem System.rewind_add (first second : Nat) (state : σ)
    : L.rewind (first + second) state = (L.rewind first state).bind (L.rewind second) := by
  induction first generalizing state with
  | zero => simp
  | succ first ih =>
    rw [Nat.succ_add]
    cases head : L.entries state with
    | nil => simp [rewind, head]
    | cons entry rest =>
      rw [rewind_succ _ head, rewind_succ _ head, Option.bind_assoc]
      exact congrArg _ (funext fun middle => ih middle)

/-- Rewinding to a mark leaves as many entries. -/
theorem System.rewindTo_depth (below : mark ≤ L.depth state)
    (run : L.rewindTo mark state = some next)
    : L.depth next = mark := by
  have dropped := rewind_entries run
  simp only [depth] at *
  rw [dropped, List.length_drop]
  omega

@[simp]
theorem System.rewindTo_self (state : σ) : L.rewindTo (L.depth state) state = some state := by
  simp [rewindTo]

/-- Rewinding to a low mark goes by every higher one. -/
theorem System.rewindTo_trans {low high : Nat} (order : low ≤ high)
    (below : high ≤ L.depth state) (run : L.rewindTo high state = some middle)
    : L.rewindTo low state = L.rewindTo low middle := by
  have depth := rewindTo_depth below run
  have split : L.depth state - low = (L.depth state - high) + (high - low) := by omega
  rw [rewindTo, split, rewind_add, rewindTo, depth]
  simp only [rewindTo] at run
  rw [run, Option.bind_some]

variable (L)

/-- A preorder on states which keeps the log and which undoing respects, also in whether it
succeeds.
-/
structure Respects (r : σ → σ → Prop) : Prop where
  refl : ∀ state, r state state
  trans : ∀ {first second third}, r first second → r second third → r first third
  entries : ∀ {left right}, r left right → L.entries left = L.entries right
  undo
    : ∀ {entry rest left right},
        r left right
        → L.entries left = entry :: rest
        → Option.Rel r (L.undo entry left) (L.undo entry right)

/-- `next` was reached from `state` by changes whose undoing leads back to `state`. -/
def Undoable (r : σ → σ → Prop) (state next : σ) : Prop :=
  L.depth state ≤ L.depth next
  ∧ ∃ back, L.rewindTo (L.depth state) next = some back ∧ r state back

variable {L} {r : σ → σ → Prop}

section

variable (respects : Respects L r)

include respects

theorem Respects.depth (related : r left right) : L.depth left = L.depth right := by
  simp only [System.depth, respects.entries related]

/-- Related states rewind to related states; induction on the number of entries. -/
theorem Respects.rewind (count : Nat) (related : r left right)
    : Option.Rel r (L.rewind count left) (L.rewind count right) := by
  induction count generalizing left right with
  | zero => exact .some related
  | succ count ih =>
    rcases head : L.entries left with _ | ⟨entry, rest⟩
    · have sameHead := respects.entries related
      rw [head] at sameHead
      simp only [System.rewind, head, ← sameHead]
      exact .none
    · rw [System.rewind_succ count head, System.rewind_succ count (respects.entries related ▸ head)]
      have step := respects.undo related head
      generalize L.undo entry left = undoneLeft at step ⊢
      generalize L.undo entry right = undoneRight at step ⊢
      cases step with
      | none => exact .none
      | some related => exact ih related

/-- Related states stay related when both are rewound to a mark. -/
theorem Respects.rewindTo (related : r left right) (run : L.rewindTo mark left = some next)
    : ∃ other, L.rewindTo mark right = some other ∧ r next other := by
  have sameDepth := respects.depth related
  have both := respects.rewind (L.depth left - mark) related
  rw [System.rewindTo] at run ⊢
  rw [run] at both
  rw [← sameDepth]
  generalize L.rewind (L.depth left - mark) right = reached at both ⊢
  cases both with
  | some step => exact ⟨_, rfl, step⟩

/-- A change that is not logged but invisible to the preorder is undoable. -/
theorem Undoable.of_related (related : r state next) : Undoable L r state next := by
  have sameDepth := respects.depth related
  exact ⟨sameDepth.le, next, by rw [sameDepth, System.rewindTo_self], related⟩

omit respects in
/-- One logged change is undoable as soon as undoing its own entry leads back. -/
theorem Undoable.of_entry {back : σ} (head : L.entries next = entry :: L.entries state)
    (undone : L.undo entry next = some back) (related : r state back)
    : Undoable L r state next := by
  have depth : L.depth next = L.depth state + 1 := by simp [System.depth, head]
  refine ⟨by omega, back, ?_, related⟩
  have one : L.depth next - L.depth state = 0 + 1 := by omega
  rw [System.rewindTo, one, System.rewind_succ 0 head, undone]
  rfl

/-- What is undoable is undone by rewinding to an older mark. -/
theorem Undoable.rewindTo
    (undoable : Undoable L r state next) (below : mark ≤ L.depth state) {old : σ}
    (run : L.rewindTo mark state = some old)
    : ∃ new, L.rewindTo mark next = some new ∧ r old new := by
  obtain ⟨above, back, backRun, related⟩ := undoable
  obtain ⟨new, newRun, newRelated⟩ := respects.rewindTo related run
  exact ⟨new, (System.rewindTo_trans below above backRun).trans newRun, newRelated⟩

/-- Two changes that can be undone. -/
theorem Undoable.trans {first second third : σ}
    (left : Undoable L r first second) (right : Undoable L r second third)
    : Undoable L r first third := by
  obtain ⟨above, back, backRun, related⟩ := left
  obtain ⟨new, newRun, newRelated⟩ := right.rewindTo respects above backRun
  exact ⟨above.trans right.1, new, newRun, respects.trans related newRelated⟩

end

/-- Rewinding to a mark that is not below the old state leaves a state still undoable. -/
theorem Undoable.partway (undoable : Undoable L r state next)
    (above : L.depth state ≤ mark) (below : mark ≤ L.depth next)
    (run : L.rewindTo mark next = some middle)
    : Undoable L r state middle := by
  obtain ⟨-, back, backRun, related⟩ := undoable
  refine ⟨(System.rewindTo_depth below run).symm ▸ above, back, ?_, related⟩
  rw [← System.rewindTo_trans above below run, backRun]

variable (L)

/-- `P` holds of every state that undoing newest entries of `state` leads to, `state`
included.
-/
def Persistent (P : σ → Prop) (state : σ) : Prop :=
  ∀ count next, L.rewind count state = some next → P next

variable {L} {P : σ → Prop}

theorem Persistent.now (persistent : Persistent L P state) : P state := persistent 0 state rfl

/-- A persistent property persists. -/
theorem Persistent.rewind (persistent : Persistent L P state)
    (run : L.rewind count state = some next)
    : Persistent L P next := by
  intro more later laterRun
  apply persistent (count + more)
  rw [System.rewind_add, run, Option.bind_some, laterRun]

/-- Without entries there is nothing to rewind. -/
theorem Persistent.of_empty (empty : L.entries state = []) (now : P state)
    : Persistent L P state := by
  intro count next run
  cases count with
  | zero => exact Option.some.inj run ▸ now
  | succ count => simp [System.rewind, empty] at run

variable (respects : Respects L r) (transport : ∀ {left right}, r left right → P left → P right)
include respects transport

/-- A property that the preorder transports survives changes the preorder does not see. -/
theorem Persistent.of_related (persistent : Persistent L P state) (related : r state next)
    : Persistent L P next := by
  intro count later run
  have both := respects.rewind count related
  rw [run] at both
  generalize reached : L.rewind count state = old at both
  cases both with
  | some step => exact transport step (persistent count _ reached)

/-- One logged change keeps a persistent property if the new state has it and undoing the
change leads back.
-/
theorem Persistent.of_entry {back : σ} (persistent : Persistent L P state) (now : P next)
    (head : L.entries next = entry :: L.entries state)
    (undone : L.undo entry next = some back) (related : r state back)
    : Persistent L P next := by
  intro count later run
  cases count with
  | zero => exact Option.some.inj run ▸ now
  | succ count =>
    rw [System.rewind_succ count head, undone, Option.bind_some] at run
    exact persistent.of_related respects transport related count later run

end UndoLog
