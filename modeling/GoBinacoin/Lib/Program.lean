import Mathlib.Order.Defs.Unbundled

/-! Programs over a state that survives failure, and rules for what they leave behind. -/

namespace Program

variable {σ τ ε α β : Type}

/-- A sequence succeeds if both parts do. -/
theorem except_bind_ok {x : Except ε α} {f : α → Except ε β} {b : β}
    : (x >>= f) = .ok b ↔ ∃ a, x = .ok a ∧ f a = .ok b := by
  cases x with
  | error e => simp [Bind.bind, Except.bind]
  | ok a => simp [Bind.bind, Except.bind]

/-- A program returns a value or stops; in both cases it leaves a state. -/
def Prog (σ ε α : Type) : Type := σ → Except ε α × σ

namespace Prog

def pure (a : α) : Prog σ ε α := fun s => (.ok a, s)

def bind (p : Prog σ ε α) (f : α → Prog σ ε β) : Prog σ ε β := fun s =>
  match p s with
  | (.ok a, s) => f a s
  | (.error e, s) => (.error e, s)

instance : Monad (Prog σ ε) where
  pure := Prog.pure
  bind := Prog.bind

instance : LawfulMonad (Prog σ ε) :=
  .mk' (Prog σ ε)
    (fun p => by
      funext s
      show Prog.bind p _ s = p s
      unfold Prog.bind
      split <;> simp_all [Prog.pure])
    (fun _ _ => rfl)
    (fun p f g => by
      funext s
      show Prog.bind (Prog.bind p f) g s = Prog.bind p _ s
      unfold Prog.bind
      generalize p s = result
      obtain ⟨_ | _, _⟩ := result <;> rfl)

def stop (e : ε) : Prog σ ε α := fun s => (.error e, s)

variable {p : Prog σ ε α} {f : α → Prog σ ε β} {s s' : σ} {Q : Except ε α → σ → Prop}

/-- After a first part that returns, the second one runs. -/
theorem bind_of_ok {a : α} (run : p s = (.ok a, s')) : (p >>= f) s = f a s' := by
  show Prog.bind p f s = f a s'
  unfold Prog.bind
  rw [run]

/-- A sequence returns if both parts do. -/
theorem bind_eq_ok {b : β}
    : (p >>= f) s = (.ok b, s') ↔ ∃ a m, p s = (.ok a, m) ∧ f a m = (.ok b, s') := by
  show Prog.bind p f s = (.ok b, s') ↔ _
  unfold Prog.bind
  generalize p s = result
  obtain ⟨_ | a, m⟩ := result
  · simp
  · simp [and_assoc]

/-- A sequence stops in the first part or in the second. -/
theorem bind_eq_error {e : ε}
    : (p >>= f) s = (.error e, s')
      ↔ p s = (.error e, s') ∨ ∃ a m, p s = (.ok a, m) ∧ f a m = (.error e, s') := by
  show Prog.bind p f s = (.error e, s') ↔ _
  unfold Prog.bind
  generalize p s = result
  obtain ⟨_ | a, m⟩ := result
  · simp
  · simp [and_assoc]

theorem pure_eq_ok {a b : α} : (pure a : Prog σ ε α) s = (.ok b, s') ↔ a = b ∧ s = s' := by
  show ((.ok a, s) : Except ε α × σ) = (.ok b, s') ↔ _
  simp

theorem returns_of_isOk (isOk : (p s).1.isOk = true) : ∃ a, p s = (.ok a, (p s).2) := by
  rcases outcome : (p s).1 with e | a
  · rw [outcome] at isOk
    cases isOk
  · exact ⟨a, Prod.ext outcome rfl⟩

def get : Prog σ ε σ := fun s => (.ok s, s)

def modify (change : σ → σ) : Prog σ ε Unit := fun s => (.ok (), change s)

/-- Run a program and look at how it ended. -/
def attempt (p : Prog σ ε α) : Prog σ ε (Except ε α) := fun s => (.ok (p s).1, (p s).2)

/-- Run a program on a part of the state. -/
def within (part : τ → σ) (replace : τ → σ → τ) (p : Prog σ ε α) : Prog τ ε α := fun s =>
  ((p (part s)).1, replace s (p (part s)).2)

def ofExcept : Except ε α → Prog σ ε α
  | .ok a => Prog.pure a
  | .error e => stop e

/-- What holds of the result and of the state after a run. -/
def After (p : Prog σ ε α) (s : σ) (Q : Except ε α → σ → Prop) : Prop := Q (p s).1 (p s).2

/-- A weaker statement about the end. -/
theorem After.mono {Q' : Except ε α → σ → Prop} (after : After p s Q)
    (weaker : ∀ r s', Q r s' → Q' r s')
    : After p s Q' :=
  weaker _ _ after

theorem After.of_run {r : Except ε α} (run : p s = (r, s')) (holds : Q r s') : After p s Q := by
  unfold After
  rw [run]
  exact holds

@[simp]
theorem after_get {Q : Except ε σ → σ → Prop} : After (get : Prog σ ε σ) s Q ↔ Q (.ok s) s :=
  Iff.rfl

/-- A sequence ends with its second part, or where the first part stopped. -/
theorem after_bind {Q : Except ε β → σ → Prop}
    : After (p >>= f) s Q
      ↔ After p s fun r s' =>
          match r with
          | .ok a => After (f a) s' Q
          | .error e => Q (.error e) s' := by
  show Q (Prog.bind p f s).1 (Prog.bind p f s).2 ↔ _
  unfold Prog.bind After
  generalize p s = result
  obtain ⟨outcome, next⟩ := result
  cases outcome with
  | ok a => exact Iff.rfl
  | error e => exact Iff.rfl

/-- A sequence, by what holds between its parts. -/
theorem After.bind {Q : Except ε β → σ → Prop}
    (first : After p s fun r s' =>
      match r with
      | .ok a => After (f a) s' Q
      | .error e => Q (.error e) s')
    : After (p >>= f) s Q :=
  after_bind.mpr first

@[simp]
theorem after_attempt {Q : Except ε (Except ε α) → σ → Prop}
    : After p.attempt s Q ↔ After p s fun r s' => Q (.ok r) s' :=
  Iff.rfl

@[simp]
theorem after_within {part : τ → σ} {replace : τ → σ → τ} {s : τ} {Q : Except ε α → τ → Prop}
    : After (within part replace p) s Q ↔ After p (part s) fun r s' => Q r (replace s s') :=
  Iff.rfl

/-- The program stops for a reason and in a state that are allowed, or returns and the
postcondition holds.
-/
def Ensures (allowed : ε → σ → Prop) (p : Prog σ ε α) (s : σ) (Q : α → σ → Prop) : Prop :=
  After p s fun r s' =>
    match r with
    | .ok a => Q a s'
    | .error e => allowed e s'

/-- The postcondition of a program, if it returns. -/
abbrev Yields (p : Prog σ ε α) (s : σ) (Q : α → σ → Prop) : Prop := Ensures (fun _ _ => True) p s Q

section Ensures

variable {allowed : ε → σ → Prop} {a : α} {Q : α → σ → Prop} {e : ε}

@[simp]
theorem ensures_pure : Ensures allowed (Pure.pure a : Prog σ ε α) s Q ↔ Q a s := Iff.rfl

@[simp]
theorem ensures_get {Q : σ → σ → Prop} : Ensures allowed (get : Prog σ ε σ) s Q ↔ Q s s := Iff.rfl

@[simp]
theorem ensures_modify {change : σ → σ} {Q : Unit → σ → Prop}
    : Ensures allowed (modify change : Prog σ ε Unit) s Q ↔ Q () (change s) :=
  Iff.rfl

/-- The rule of a sequence, both ways. -/
@[simp]
theorem ensures_bind {Q : β → σ → Prop}
    : Ensures allowed (p >>= f) s Q
      ↔ Ensures allowed p s fun a s' => Ensures allowed (f a) s' Q := by
  unfold Ensures
  rw [after_bind]

namespace Ensures

/-- The rule of a sequence. -/
theorem seq {Q : β → σ → Prop} (first : Ensures allowed p s fun a s' => Ensures allowed (f a) s' Q)
    : Ensures allowed (p >>= f) s Q :=
  ensures_bind.mpr first

theorem get {f : σ → Prog σ ε α} (rest : Ensures allowed (f s) s Q)
    : Ensures allowed (get >>= f) s Q :=
  ensures_bind.mpr rest

theorem mono {Q' : α → σ → Prop} (ensures : Ensures allowed p s Q)
    (weaker : ∀ a s', Q a s' → Q' a s')
    : Ensures allowed p s Q' := by
  refine After.mono ensures fun r s' holds => ?_
  cases r with
  | ok a => exact weaker a s' holds
  | error e => exact holds

variable {R : α → σ → Prop} {q : Prog σ ε α} {allowed' : ε → σ → Prop}

theorem bind {Q : β → σ → Prop} (first : Ensures allowed p s R)
    (second : ∀ a s', R a s' → Ensures allowed (f a) s' Q)
    : Ensures allowed (p >>= f) s Q :=
  ensures_bind.mpr (first.mono second)

theorem ite {c : Prop} [Decidable c]
    (yes : c → Ensures allowed p s Q) (no : ¬ c → Ensures allowed q s Q)
    : Ensures allowed (if c then p else q) s Q := by
  split
  · exact yes ‹_›
  · exact no ‹_›

theorem of_returned (run : p s = (.ok a, s')) (holds : Q a s') : Ensures allowed p s Q := by
  unfold Ensures After
  rw [run]
  exact holds

theorem congr (same : p s = q s') (ensures : Ensures allowed q s' Q) : Ensures allowed p s Q := by
  unfold Ensures After
  rw [same]
  exact ensures

theorem of_outcome (returned : ∀ a, (p s).1 = .ok a → Q a (p s).2)
    (stopped : ∀ e, (p s).1 = .error e → allowed e (p s).2)
    : Ensures allowed p s Q := by
  unfold Ensures After
  cases outcome : (p s).1 with
  | ok a => exact returned a outcome
  | error e => exact stopped e outcome

variable (ensures : Ensures allowed p s Q)
include ensures

/-- What is known of a program that stopped. -/
theorem stopped (run : p s = (.error e, s')) : allowed e s' := by
  unfold Ensures After at ensures
  rw [run] at ensures
  exact ensures

theorem returned (run : p s = (.ok a, s')) : Q a s' := by
  unfold Ensures After at ensures
  rw [run] at ensures
  exact ensures

theorem weaken (weaker : ∀ e s', allowed e s' → allowed' e s') : Ensures allowed' p s Q :=
  .of_outcome (fun _ run => ensures.returned (Prod.ext run rfl))
    fun e run => weaker e _ (ensures.stopped (Prod.ext run rfl))

omit ensures

theorem and (first : Ensures allowed p s Q) (second : Ensures allowed' p s R)
    : Ensures allowed p s fun a s' => Q a s' ∧ R a s' :=
  .of_outcome
    (fun _ run => ⟨first.returned (Prod.ext run rfl), second.returned (Prod.ext run rfl)⟩)
    fun _ run => first.stopped (Prod.ext run rfl)

end Ensures

end Ensures

/-- Every run of the program relates the state before to the state after. -/
def Keeps (R : σ → σ → Prop) (p : Prog σ ε α) : Prop := ∀ s, R s (p s).2

section Keeps

variable {R : σ → σ → Prop} [IsPreorder σ R]

theorem Keeps.pure (a : α) : Keeps R (Pure.pure a : Prog σ ε α) := fun s => refl s

theorem Keeps.stop (e : ε) : Keeps R (stop e : Prog σ ε α) := fun s => refl s

theorem Keeps.get : Keeps R (get : Prog σ ε σ) := fun s => refl s

theorem Keeps.ofExcept (r : Except ε α) : Keeps R (ofExcept r : Prog σ ε α) := by
  cases r with
  | ok a => exact .pure a
  | error e => exact .stop e

/-- A relation that is transitive is kept by two steps. -/
theorem Keeps.bind (first : Keeps R p) (second : ∀ a, Keeps R (f a)) : Keeps R (p >>= f) := by
  intro s
  show R s (Prog.bind p f s).2
  have start := first s
  unfold Prog.bind
  generalize p s = result at start
  obtain ⟨outcome, next⟩ := result
  cases outcome with
  | ok a => exact IsTrans.trans s next _ start (second a next)
  | error e => exact start

omit [IsPreorder σ R] in
/-- Either branch keeps the relation. -/
theorem Keeps.ite {c : Prop} [Decidable c] {q : Prog σ ε α} (yes : Keeps R p) (no : Keeps R q)
    : Keeps R (if c then p else q) := by
  split
  · exact yes
  · exact no

end Keeps

/-- Two accounts of runs: `done` for what was completed, `any` also for what was broken off. -/
structure Tracking (σ : Type) where
  done : σ → σ → Prop
  any : σ → σ → Prop
  refl : ∀ s, done s s
  trans : ∀ {a b c}, done a b → done b c → done a c
  weaken : ∀ {a b}, done a b → any a b
  follow : ∀ {a b c}, done a b → any b c → any a c

/-- Track a part of the state. -/
def Tracking.of (T : Tracking σ) (part : τ → σ) : Tracking τ where
  done s s' := T.done (part s) (part s')
  any s s' := T.any (part s) (part s')
  refl s := T.refl (part s)
  trans := T.trans
  weaken := T.weaken
  follow := T.follow

/-- A program that returns has completed what it did, and the postcondition holds. -/
def Tracks (T : Tracking σ) (p : Prog σ ε α) (s : σ) (Q : α → σ → Prop) : Prop :=
  After p s fun r s' =>
    match r with
    | .ok a => T.done s s' ∧ Q a s'
    | .error _ => T.any s s'

section Tracks

variable {T : Tracking σ} {Q : α → σ → Prop}

namespace Tracks

variable {a : α} {R : α → σ → Prop}

theorem pure (holds : Q a s) : Tracks T (Pure.pure a : Prog σ ε α) s Q := ⟨T.refl s, holds⟩

theorem stop {e : ε} : Tracks T (stop e : Prog σ ε α) s Q := T.weaken (T.refl s)

theorem get {f : σ → Prog σ ε α} (rest : Tracks T (f s) s Q) : Tracks T (get >>= f) s Q := rest

/-- The rule of a sequence, with what was done so far. -/
theorem bind {Q : β → σ → Prop} (first : Tracks T p s R)
    (second : ∀ a s', T.done s s' → R a s' → Tracks T (f a) s' Q)
    : Tracks T (p >>= f) s Q := by
  refine After.bind (After.mono first fun r s' holds => ?_)
  rcases r with e | a
  · exact holds
  · refine After.mono (second a s' holds.1 holds.2) fun r s'' rest => ?_
    cases r with
    | ok b => exact ⟨T.trans holds.1 rest.1, rest.2⟩
    | error e => exact T.follow holds.1 rest

/-- A weaker statement about the end may use what was done. -/
theorem mono {Q' : α → σ → Prop} (tracks : Tracks T p s Q)
    (weaker : ∀ a s', T.done s s' → Q a s' → Q' a s')
    : Tracks T p s Q' := by
  refine After.mono tracks fun r s' holds => ?_
  cases r with
  | ok a => exact ⟨holds.1, weaker a s' holds.1 holds.2⟩
  | error e => exact holds

theorem ite {c : Prop} [Decidable c] {q : Prog σ ε α}
    (yes : c → Tracks T p s Q) (no : ¬ c → Tracks T q s Q)
    : Tracks T (if c then p else q) s Q := by
  split
  · exact yes ‹_›
  · exact no ‹_›

/-- A program is tracked if both of its outcomes are. -/
theorem of_outcome (returned : ∀ a, (p s).1 = .ok a → T.done s (p s).2 ∧ Q a (p s).2)
    (stopped : ∀ e, (p s).1 = .error e → T.any s (p s).2)
    : Tracks T p s Q := by
  unfold Tracks After
  cases outcome : (p s).1 with
  | ok a => exact returned a outcome
  | error e => exact stopped e outcome

/-- What is known of a program that returned. -/
theorem returned (tracks : Tracks T p s Q) (run : (p s).1 = .ok a)
    : T.done s (p s).2 ∧ Q a (p s).2 := by
  unfold Tracks After at tracks
  rw [run] at tracks
  exact tracks

/-- What is tracked and what is ensured hold together. -/
theorem also {allowed : ε → σ → Prop} (tracks : Tracks T p s Q) (ensures : Ensures allowed p s R)
    : Tracks T p s fun a s' => Q a s' ∧ R a s' := by
  unfold Ensures After at ensures
  unfold Tracks After at *
  rcases outcome : (p s).1 with e | a
  · rw [outcome] at tracks
    exact tracks
  · rw [outcome] at tracks ensures
    exact ⟨tracks.1, tracks.2, ensures⟩

/-- What is done whether the program returns or stops. -/
theorem always (tracks : Tracks T p s Q) : T.any s (p s).2 := by
  unfold Tracks After at tracks
  rcases outcome : (p s).1 with e | a
  · rw [outcome] at tracks
    exact tracks
  · rw [outcome] at tracks
    exact T.weaken tracks.1

/-- What is tracked in a part is tracked in the whole. -/
theorem within {part : τ → σ} {replace : τ → σ → τ} {t : τ}
    {Q' : α → τ → Prop} (put : ∀ s, part (replace t s) = s)
    (tracks : Tracks T p (part t) Q) (weaker : ∀ a s', Q a s' → Q' a (replace t s'))
    : Tracks (T.of part) (within part replace p) t Q' := by
  refine .of_outcome (fun a run => ?_) fun e run => ?_
  · obtain ⟨done, holds⟩ := tracks.returned run
    refine ⟨?_, weaker a _ holds⟩
    show T.done (part t) (part (replace t _))
    rw [put]
    exact done
  · show T.any (part t) (part (replace t _))
    rw [put]
    exact tracks.always

end Tracks

end Tracks

end Prog

export Prog (After Ensures Yields Keeps Tracks Tracking ensures_bind ensures_get ensures_modify
  ensures_pure bind_eq_ok bind_eq_error bind_of_ok pure_eq_ok returns_of_isOk after_get)

end Program
