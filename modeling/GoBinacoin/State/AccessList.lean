import GoBinacoin.Common.Types
import Mathlib.Data.Finset.Basic

/-! The access list of a transaction: addresses with an index into a list of slot sets, and
the deletions the journal uses, which only undo the newest addition.
-/

namespace GoBinacoin.State

structure AccessList where
  /-- Index of the slot set of an address; -1 for an address without slots. -/
  addresses : GoMap Address Int
  slots : List (Finset Hash)

def newAccessList : AccessList :=
  {
    addresses := GoMap.empty
    slots := []
  }

namespace AccessList

/-- Indexing a slice with an `int`; `none` is the panic for an index out of range. -/
def slotmap (al : AccessList) (idx : Int) : Option (Finset Hash) :=
  if idx < 0 then none else al.slots[idx.toNat]?

def containsAddress (al : AccessList) (address : Address) : Bool :=
  (al.addresses address).isSome

/-- Presence of the address and of the slot. -/
def contains (al : AccessList) (address : Address) (slot : Hash)
    : Option (Bool × Bool) :=
  match al.addresses address with
  | none => some (false, false)
  | some idx =>
      if idx = -1 then some (true, false)
      else (al.slotmap idx).map fun slotmap => (true, decide (slot ∈ slotmap))

/-- The flag says whether the address was not in the list before. -/
def addAddress (al : AccessList) (address : Address) : Bool × AccessList :=
  match al.addresses address with
  | some _ => (false, al)
  | none => (true, { al with addresses := al.addresses.set address (-1) })

/-- A slot set of its own for an address that has none yet. -/
def openSlots (al : AccessList) (address : Address) (slot : Hash) : AccessList :=
  {
    addresses := al.addresses.set address al.slots.length
    slots := al.slots ++ [{slot}]
  }

/-- The flags say whether the address and the slot were added. -/
def addSlot (al : AccessList) (address : Address) (slot : Hash)
    : Option (Bool × Bool × AccessList) :=
  match al.addresses address with
  | none => some (true, true, al.openSlots address slot)
  | some idx =>
      if idx = -1 then
        some (false, true, al.openSlots address slot)
      else
        (al.slotmap idx).map fun slotmap =>
          if slot ∈ slotmap then (false, false, al)
          else
            (false, true, { al with slots := al.slots.set idx.toNat (insert slot slotmap) })

/-- When the last slot of the set goes, the set goes with every set behind it. -/
def deleteSlot (al : AccessList) (address : Address) (slot : Hash)
    : Option AccessList :=
  match al.addresses address with
  | none => none
  | some idx =>
      (al.slotmap idx).map fun slotmap =>
        if slotmap.erase slot = ∅ then
          {
            addresses := al.addresses.set address (-1)
            slots := al.slots.take idx.toNat
          }
        else
          { al with slots := al.slots.set idx.toNat (slotmap.erase slot) }

def deleteAddress (al : AccessList) (address : Address) : AccessList :=
  { al with addresses := al.addresses.delete address }

/-- Every index other than -1 leads to a slot set, and slot sets in use are not empty. -/
def WellFormed (al : AccessList) : Prop :=
  ∀ address idx, al.addresses address = some idx → idx ≠ -1 →
    ∃ slotmap, al.slotmap idx = some slotmap ∧ slotmap ≠ ∅

end AccessList

theorem newAccessList_wellFormed : newAccessList.WellFormed := by
  intro address idx present
  simp [newAccessList] at present

variable {al next : AccessList} {address : Address}

namespace AccessList

/-- A new address has no slots. -/
theorem addAddress_wellFormed (wf : al.WellFormed) (address : Address)
    : (al.addAddress address).2.WellFormed := by
  unfold addAddress
  rcases lookup : al.addresses address with _ | _
  · intro other idx present notAlone
    rcases eq_or_ne other address with same | different
    · subst same
      simp only [GoMap.set_self, Option.some.injEq] at present
      exact absurd present.symm notAlone
    · simp only [GoMap.set_of_ne _ _ different] at present
      exact wf other idx present notAlone
  · exact wf

/-- Deleting undoes adding. -/
theorem deleteAddress_addAddress (added : al.addAddress address = (true, next))
    : next.deleteAddress address = al := by
  unfold addAddress at added
  rcases lookup : al.addresses address with _ | _
  · simp only [lookup, Prod.mk.injEq, true_and] at added
    simp [← added, deleteAddress, GoMap.delete_set _ _ _ lookup]
  · simp [lookup] at added

theorem slotmap_eq_some {idx : Int} {slotmap : Finset Hash}
    : al.slotmap idx = some slotmap ↔ 0 ≤ idx ∧ al.slots[idx.toNat]? = some slotmap := by
  unfold AccessList.slotmap
  split
  · rename_i negative
    simp [negative]
  · rename_i nonneg
    simp [Int.not_lt.mp nonneg]

theorem openSlots_slotmap (al : AccessList) (address : Address) (slot : Hash)
    : (al.openSlots address slot).slotmap al.slots.length = some {slot} := by
  rw [slotmap_eq_some]
  simp [openSlots]

/-- A new list of slots is the one of its address. -/
theorem openSlots_wellFormed (wf : al.WellFormed) (address : Address) (slot : Hash)
    : (al.openSlots address slot).WellFormed := by
  intro other idx present notAlone
  rcases eq_or_ne other address with same | different
  · subst same
    simp only [openSlots, GoMap.set_self, Option.some.injEq] at present
    exact ⟨{slot}, present ▸ al.openSlots_slotmap other slot, by simp⟩
  · simp only [openSlots, GoMap.set_of_ne _ _ different] at present
    obtain ⟨slotmap, found, nonempty⟩ := wf other idx present notAlone
    refine ⟨slotmap, ?_, nonempty⟩
    rw [slotmap_eq_some] at found ⊢
    have inside := (List.getElem?_eq_some_iff.mp found.2).1
    exact ⟨found.1, by simpa [openSlots, List.getElem?_append_left inside] using found.2⟩

/-- Deleting the slot that opened a slot set leaves the address without slots. -/
theorem deleteSlot_openSlots (al : AccessList) (address : Address) (slot : Hash)
    : (al.openSlots address slot).deleteSlot address slot
      = some { al with addresses := al.addresses.set address (-1) } := by
  have lookup : (al.openSlots address slot).addresses address = some (al.slots.length : Int) := by
    simp [openSlots]
  simp only [deleteSlot, lookup, openSlots_slotmap, Option.map_some]
  simp [openSlots, GoMap.set]

/-- A new slot joins the list of its address. -/
theorem addSlot_wellFormed {slot : Hash} {addrChange slotChange : Bool} (wf : al.WellFormed)
    (added : al.addSlot address slot = some (addrChange, slotChange, next))
    : next.WellFormed := by
  unfold addSlot at added
  rcases lookup : al.addresses address with _ | idx
  · simp only [lookup, Option.some.injEq, Prod.mk.injEq] at added
    exact added.2.2 ▸ al.openSlots_wellFormed wf address slot
  simp only [lookup] at added
  split at added
  · simp only [Option.some.injEq, Prod.mk.injEq] at added
    exact added.2.2 ▸ al.openSlots_wellFormed wf address slot
  · obtain ⟨slotmap, found, result⟩ := Option.map_eq_some_iff.mp added
    split at result
    · simp only [Prod.mk.injEq] at result
      exact result.2.2 ▸ wf
    · simp only [Prod.mk.injEq] at result
      rw [← result.2.2]
      intro other otherIdx present notAlone
      obtain ⟨otherMap, otherFound, nonempty⟩ := wf other otherIdx present notAlone
      rw [slotmap_eq_some] at otherFound
      by_cases same : idx.toNat = otherIdx.toNat
      · refine ⟨insert slot slotmap, ?_, by simp⟩
        have inside := (List.getElem?_eq_some_iff.mp otherFound.2).1
        rw [slotmap_eq_some]
        exact ⟨otherFound.1, by simp [same, inside]⟩
      · refine ⟨otherMap, ?_, nonempty⟩
        rw [slotmap_eq_some]
        exact ⟨otherFound.1, by simpa [List.getElem?_set_ne same] using otherFound.2⟩

/-- Deleting a slot that was added to a set in use gives the list back. -/
theorem deleteSlot_addSlot {slot : Hash}
    {idx : Int} (wf : al.WellFormed) (lookup : al.addresses address = some idx)
    (added : al.addSlot address slot = some (false, true, next))
    : next.deleteSlot address slot = some al := by
  simp only [addSlot, lookup] at added
  split at added
  · rename_i alone
    simp only [Option.some.injEq, Prod.mk.injEq, true_and] at added
    subst alone
    rw [← added, deleteSlot_openSlots]
    simp [GoMap.set, ← lookup]
  · rename_i notAlone
    obtain ⟨slotmap, found, result⟩ := Option.map_eq_some_iff.mp added
    split at result
    · simp at result
    · rename_i fresh
      simp only [Prod.mk.injEq, true_and] at result
      obtain ⟨slotmap', found', nonempty⟩ := wf address idx lookup notAlone
      have sameMap : slotmap' = slotmap := Option.some.inj (found'.symm.trans found)
      subst sameMap
      rw [slotmap_eq_some] at found
      have inside := (List.getElem?_eq_some_iff.mp found.2).1
      have foundNext : next.slotmap idx = some (insert slot slotmap') := by
        rw [slotmap_eq_some, ← result]
        exact ⟨found.1, by simp [inside]⟩
      have lookupNext : next.addresses address = some idx := by rw [← result]; exact lookup
      simp only [deleteSlot, lookupNext, foundNext, Option.map_some]
      rw [Finset.erase_insert fresh, if_neg nonempty, ← result]
      have restored : (al.slots.set idx.toNat (insert slot slotmap')).set idx.toNat slotmap'
          = al.slots := by
        obtain ⟨bound, value⟩ := List.getElem?_eq_some_iff.mp found.2
        rw [List.set_set, ← value, List.set_getElem_self]
      simp [restored]

end AccessList

end GoBinacoin.State
