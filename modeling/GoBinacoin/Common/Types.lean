import GoBinacoin.Lib.BigEndian
import Mathlib.Data.BitVec
import Mathlib.Logic.Function.Basic

/-! Byte strings, addresses, hashes and maps, as every package of the node uses them. -/

namespace GoBinacoin

abbrev Bytes := List UInt8

/-- `common.Address`, 20 bytes. -/
abbrev Address := BitVec 160

/-- `common.Hash`, 32 bytes. Storage keys and values have this type too. -/
abbrev Hash := BitVec 256

/-- The root of an empty trie. -/
def emptyRoot : Hash := 0x56e81f171bcc55a6ff8345e692c0f86e5b48e01b996cadc001622fb5e363b421#256

/-- `Hash.Bytes`. -/
def hashBytes (h : Hash) : Bytes := BigEndian.toBE 32 h.toNat

/-- `Address.Bytes`. -/
def addressBytes (a : Address) : Bytes := BigEndian.toBE 20 a.toNat

/-- `BytesToHash`: longer input is cropped from the left. -/
def bytesToHash (b : Bytes) : Hash := BitVec.ofNat 256 (BigEndian.ofBE b)

/-- `BytesToAddress`: longer input is cropped from the left. -/
def bytesToAddress (b : Bytes) : Address := BitVec.ofNat 160 (BigEndian.ofBE b)

theorem hashBytes_length (h : Hash) : (hashBytes h).length = 32 := BigEndian.length_toBE _ _

@[simp]
theorem bytesToHash_hashBytes (h : Hash) : bytesToHash (hashBytes h) = h := by
  apply BitVec.eq_of_toNat_eq
  rw [bytesToHash, hashBytes, BigEndian.ofBE_toBE, BitVec.toNat_ofNat]
  have := h.isLt
  omega

/-- A Go map, read through the two-valued index expression: an absent key reads `none`.
Where the source ranges over a map, the model takes the visiting order as an argument.
-/
abbrev GoMap (κ υ : Type) := κ → Option υ

namespace GoMap

variable {κ υ : Type} [DecidableEq κ]

def empty : GoMap κ υ := fun _ => none

def set (m : GoMap κ υ) (k : κ) (v : υ) : GoMap κ υ := Function.update m k (some v)

def delete (m : GoMap κ υ) (k : κ) : GoMap κ υ := Function.update m k none

omit [DecidableEq κ] in
@[simp]
theorem empty_apply (k : κ) : (empty : GoMap κ υ) k = none := rfl

section

variable (m : GoMap κ υ)

include m

@[simp]
theorem set_self (k : κ) (v : υ) : m.set k v k = some v := by
  simp [set]

theorem set_of_ne {k k' : κ} (v : υ) (ne : k' ≠ k) : m.set k v k' = m k' := by
  simp [set, ne]

theorem set_apply (k k' : κ) (v : υ) : m.set k v k' = if k' = k then some v else m k' := by
  simp [set, Function.update_apply]

@[simp]
theorem delete_self (k : κ) : m.delete k k = none := by
  simp [delete]

theorem delete_of_ne {k k' : κ} (ne : k' ≠ k) : m.delete k k' = m k' := by
  simp [delete, ne]

theorem delete_apply (k k' : κ) : m.delete k k' = if k' = k then none else m k' := by
  simp [delete, Function.update_apply]

omit m in
theorem of_set {m : GoMap κ υ} {k k' : κ} {v w : υ} (found : m.set k v k' = some w)
    : k' = k ∧ w = v ∨ m k' = some w := by
  rw [set_apply] at found
  split at found
  · rename_i same
    exact .inl ⟨same, (Option.some.inj found).symm⟩
  · exact .inr found

/-- Deleting a key that was absent before it was set gives the map back. -/
theorem delete_set (k : κ) (v : υ) (absent : m k = none) : (m.set k v).delete k = m := by
  simp [set, delete, ← absent]

/-- Writing back the previous value of a present key gives the map back. -/
theorem set_set_self (k : κ) (v old : υ) (present : m k = some old)
    : (m.set k v).set k old = m := by
  simp [set, ← present]

end

end GoMap

end GoBinacoin
