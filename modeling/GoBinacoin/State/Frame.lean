import GoBinacoin.State.Restore
import GoBinacoin.State.Writes

/-! What operations leave alone: accounts, slots and overrides that they do not name. -/

namespace GoBinacoin.State

open StateDB

variable {B : Backend}

namespace StateDB

/-- The database reads nothing where there is nothing: an empty storage trie has no slots, and
the snapshot has none of accounts that do not exist.
-/
structure Tidy (s : StateDB B) : Prop where
  emptyTrie
    : ∀ addr key,
        (fetchedTrie B s.db ((newObject B addr B.blankAccount).trieValue s.db) key).value = 0
  strays
    : ∀ addr snap key enc,
        s.stored addr = none → s.snap = some snap
        → B.snapStorage snap (B.hashAddress addr) (B.keccak (hashBytes key)) = .ok enc
        → (decodeSlot enc).1 = 0

variable (s : StateDB B) (addr : Address)

theorem same_getBalance : Same s (s.getBalance addr).2 :=
  (s.readObject_eq addr 0 fun o => .refl s.reads o).2.1

theorem same_getNonce : Same s (s.getNonce addr).2 :=
  (s.readObject_eq addr 0 fun o => .refl s.reads o).2.1

theorem same_getCodeHash : Same s (s.getCodeHash addr).2 :=
  (s.readObject_eq addr 0 fun o => .refl s.reads o).2.1

variable (s : StateDB B) (injective : B.Injective) (addr : Address) (ok : s.Ok)
include injective ok

theorem ok_getBalance : (s.getBalance addr).2.Ok :=
  have run : (Op.getBalance addr).run s = some (s.getBalance addr).2 := rfl
  Op.run_ok injective ok run

theorem ok_getNonce : (s.getNonce addr).2.Ok :=
  have run : (Op.getNonce addr).run s = some (s.getNonce addr).2 := rfl
  Op.run_ok injective ok run

theorem ok_getCodeHash : (s.getCodeHash addr).2.Ok :=
  have run : (Op.getCodeHash addr).run s = some (s.getCodeHash addr).2 := rfl
  Op.run_ok injective ok run

end StateDB

theorem OnObjects.tidy {s next : StateDB B} (rest : OnObjects s next) (tidy : s.Tidy)
    : next.Tidy := by
  obtain ⟨_, _, _, _, rfl⟩ := rest
  exact ⟨tidy.emptyTrie, tidy.strays⟩

/-- All slots of a new account are zero. -/
theorem Created.slotValue {s next : StateDB B} {addr : Address} (created : Created s addr next)
    (tidy : s.Tidy) (key : Hash)
    : (newObject B addr B.blankAccount).slotValue next.reads key = 0 := by
  have emptyTrie := (created.rest.tidy tidy).emptyTrie addr key
  have snap : next.snap = s.snap := by
    obtain ⟨_, _, _, _, rfl⟩ := created.rest
    rfl
  show (fetched next.reads (B.hashAddress addr) _ key).value = 0
  unfold fetched
  rcases layer : next.reads.snap with _ | layer'
  · exact emptyTrie
  have present : s.snap = some layer' := snap.symm.trans layer
  simp only
  split
  · rfl
  · rename_i kept
    have absent : s.stored addr = none := by
      rcases created.hidden with absent | none | destructed
      · exact absent
      · cases none.symm.trans present
      · exact absurd destructed kept
    cases read : B.snapStorage layer' (B.hashAddress addr) (B.keccak (hashBytes key)) with
    | error err => exact emptyTrie
    | ok enc => exact tidy.strays addr layer' key enc absent present read

theorem Object.slotValue_destructs {reads reads' : Reads B} (o : Object B)
    (db : reads'.db = reads.db) (snap : reads'.snap = reads.snap)
    (destructs : reads'.snapDestructs (B.hashAddress o.address)
      = reads.snapDestructs (B.hashAddress o.address)) (key : Hash)
    : o.slotValue reads' key = o.slotValue reads key := by
  unfold slotValue stateValue
  rw [o.committedValue_destructs db snap destructs]

section Obtained

variable {s middle : StateDB B} {addr : Address} {o : Object B} {other : Address}

theorem Obtained.live_of_ne (obtained : Obtained s addr o middle) (ne : other ≠ addr)
    : middle.live other = s.live other :=
  live_congr (obtained.elsewhere other ne)

variable (injective : B.Injective) (obtained : Obtained s addr o middle) (ne : other ≠ addr)
include injective obtained ne

theorem Obtained.destructs_of_ne
    : middle.snapDestructs (B.hashAddress other) = s.snapDestructs (B.hashAddress other) := by
  rcases obtained.origin with ⟨-, same⟩ | ⟨-, -, created⟩
  · rw [same]
  · exact created.destructs _ fun same => ne (injective same)

/-- Obtaining an account changes no slot of another. -/
theorem Obtained.slotOf_of_ne (key : Hash) : middle.slotOf other key = s.slotOf other key := by
  unfold slotOf
  rw [obtained.live_of_ne ne]
  rcases found : s.live other with _ | o'
  · rfl
  · have destructs := obtained.destructs_of_ne injective ne
    rw [← live_keyed found] at destructs
    obtain ⟨_, _, _, _, rfl⟩ := obtained.rest
    exact o'.slotValue_destructs (by rfl) (by rfl) (by exact destructs) key

omit injective obtained ne

/-- Obtaining an account changes no slot at all. -/
theorem Obtained.slotOf (injective : B.Injective) (tidy : s.Tidy)
    (obtained : Obtained s addr o middle) (other : Address) (key : Hash)
    : middle.slotOf other key = s.slotOf other key := by
  by_cases here : other = addr
  · subst here
    have found := obtained.live
    rcases obtained.origin with ⟨live, destructs⟩ | ⟨live, fresh, created⟩
    · have reads : middle.reads = s.reads := by
        obtain ⟨_, _, _, _, rfl⟩ := obtained.rest
        unfold reads
        simp only at destructs
        rw [destructs]
      simp [slotOf, live, found, reads]
    · subst fresh
      simp [slotOf, live, found, created.slotValue tidy key]
  · exact obtained.slotOf_of_ne injective here key

theorem StateDB.overrides_eq (s : StateDB B) (other : Address)
    : s.overrides other = (s.live other).elim none Object.fakeStorage := by
  unfold overrides
  cases s.live other with
  | none => rfl
  | some o => rfl

variable (obtained : Obtained s addr o middle)
include obtained

theorem Obtained.overrides (other : Address) : middle.overrides other = s.overrides other := by
  rw [overrides_eq, overrides_eq]
  exact obtained.value Object.fakeStorage rfl other

theorem Obtained.db : middle.db = s.db := by
  obtain ⟨_, _, _, _, rfl⟩ := obtained.rest
  rfl

theorem Obtained.accounts
    : SameAccounts s middle where
  balance := obtained.balanceOf
  nonce := obtained.nonceOf
  code other := by
    unfold codeOf
    rw [obtained.db]
    exact obtained.value (fun o => o.codeValue s.db) (if_pos rfl) other
  suicided other := obtained.value (fun o => o.suicided) rfl other

end Obtained

section Nonces

variable (s : StateDB B) (addr : Address) (nonce : UInt64)

namespace StateDB

variable (other : Address)

theorem live_setNonce
    : (s.setNonce addr nonce).live other
      = if other = addr then some ((s.getOrNewStateObject addr).1.setNonce nonce)
        else s.live other := by
  have obtained := s.getOrNewStateObject_obtained addr
  refine (live_setStateObject _ (by exact obtained.address) (by exact obtained.alive)
    other).trans ?_
  split
  · rfl
  · rename_i ne
    exact obtained.live_of_ne ne

theorem setNonce_reads : (s.setNonce addr nonce).reads = (s.getOrNewStateObject addr).2.reads := rfl

/-- Only the nonce of the account changes. -/
theorem nonceOf_setNonce
    : (s.setNonce addr nonce).nonceOf other = if other = addr then nonce else s.nonceOf other := by
  unfold nonceOf
  rw [live_setNonce]
  split <;> rfl

/-- A value that ignores nonces stays the same. -/
theorem setNonce_value {α : Type} (value : StateDB B → Address → α)
    (read : Reads B → Object B → α) (absent : α)
    (isValue : ∀ s other, value s other = (s.live other).elim absent (read s.reads))
    (ignores : ∀ reads o, read reads (o.setNonce nonce) = read reads o)
    (kept : ∀ other, value (s.getOrNewStateObject addr).2 other = value s other) (other : Address)
    : value (s.setNonce addr nonce) other = value s other := by
  have obtained := s.getOrNewStateObject_obtained addr
  rw [← kept, isValue, isValue, live_setNonce, setNonce_reads]
  by_cases here : other = addr
  · rw [if_pos here, here, obtained.live]
    exact ignores _ _
  · rw [if_neg here, obtained.live_of_ne here]

theorem codeOf_setNonce : (s.setNonce addr nonce).codeOf other = s.codeOf other :=
  s.setNonce_value addr nonce codeOf (fun reads o => o.codeValue reads.db) none (fun _ _ => rfl)
    (fun _ _ => rfl) (s.getOrNewStateObject_obtained addr).accounts.code other

theorem suicidedOf_setNonce : (s.setNonce addr nonce).suicidedOf other = s.suicidedOf other :=
  s.setNonce_value addr nonce suicidedOf (fun _ o => o.suicided) false (fun _ _ => rfl)
    (fun _ _ => rfl) (s.getOrNewStateObject_obtained addr).accounts.suicided other

theorem slotOf_setNonce (injective : B.Injective) (tidy : s.Tidy) (other : Address) (key : Hash)
    : (s.setNonce addr nonce).slotOf other key = s.slotOf other key :=
  s.setNonce_value addr nonce (fun s other => s.slotOf other key)
    (fun reads o => o.slotValue reads key) 0 (fun _ _ => rfl) (fun _ _ => rfl)
    (fun other => (s.getOrNewStateObject_obtained addr).slotOf injective tidy other key) other

theorem overrides_setNonce : (s.setNonce addr nonce).overrides other = s.overrides other :=
  s.setNonce_value addr nonce overrides (fun _ o => o.fakeStorage) none
    overrides_eq (fun _ _ => rfl) (s.getOrNewStateObject_obtained addr).overrides other

end StateDB

end Nonces

end GoBinacoin.State
