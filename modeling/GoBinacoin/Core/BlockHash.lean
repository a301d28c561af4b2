import GoBinacoin.Types.Header

/-! `GetHashFn`: the hashes of the ancestors of a header, served from a cache that grows with
the queries. Whatever was asked before, a query is answered by following parent hashes from
the header itself.
-/

namespace GoBinacoin.Core

open Types

/-- `ChainContext.GetHeader`. -/
abbrev ChainContext := Hash → UInt64 → Option Header

/-- The loop behind the cache. It is left by an answer, or by a header that is missing. -/
def iterate (chain : ChainContext) (n : UInt64)
    : Nat → List Hash → Hash → UInt64 → Option (Hash × List Hash)
  | 0, _, _, _ => none
  | fuel + 1, cache, lastKnownHash, lastKnownNumber =>
      match chain lastKnownHash lastKnownNumber with
      | none => some (0, cache)
      | some header =>
          let cache := cache ++ [header.parentHash]
          let lastKnownNumber := UInt64.ofNat header.number - 1
          if n = lastKnownNumber then some (header.parentHash, cache)
          else iterate chain n fuel cache header.parentHash lastKnownNumber

/-- The function that `GetHashFn` returns, with the cache it closes over. -/
def getHashFn (ref : Header) (chain : ChainContext) (fuel : Nat) (cache : List Hash) (n : UInt64)
    : Option (Hash × List Hash) :=
  let cache := if cache.length = 0 then [ref.parentHash] else cache
  let idx := UInt64.ofNat ref.number - n - 1
  match cache[idx.toNat]? with
  | some h => some (h, cache)
  | none =>
      iterate chain n fuel cache (cache.getLastD 0)
        (UInt64.ofNat ref.number - UInt64.ofNat cache.length)

/-- A sequence of queries. -/
def getHashes (ref : Header) (chain : ChainContext) (fuel : Nat)
    : List Hash → List UInt64 → Option (List Hash)
  | _, [] => some []
  | cache, n :: rest => do
      let (h, cache) ← getHashFn ref chain fuel cache n
      let hs ← getHashes ref chain fuel cache rest
      return h :: hs

/-- The ancestors of a header from its parent down to the genesis block, each of them available
under its hash and number.
-/
inductive Descends (hash : Header → Hash) (chain : ChainContext) : Header → List Header → Prop
  | genesis {ref : Header} (zero : ref.number = 0) : Descends hash chain ref []
  | parent {ref p : Header} {rest : List Header} (named : ref.parentHash = hash p)
      (small : p.number < 2 ^ 64) (found : chain (hash p) (UInt64.ofNat p.number) = some p)
      (next : ref.number = p.number + 1) (past : Descends hash chain p rest)
      : Descends hash chain ref (p :: rest)

variable {hash : Header → Hash} {chain : ChainContext} {ref p : Header} {past : List Header}
  {n : UInt64} {fuel m : Nat}

namespace Descends

theorem length_eq (descends : Descends hash chain ref past) : past.length = ref.number := by
  induction descends with
  | genesis zero => simp [zero]
  | parent _ _ _ next _ ih => simp [ih, next]

/-- An ancestor is where its number says, and has the rest of the line as its ancestors. -/
theorem ancestor (descends : Descends hash chain ref past) (at_ : past[m]? = some p)
    : p.number + (m + 1) = ref.number ∧ p.number < 2 ^ 64
      ∧ chain (hash p) (UInt64.ofNat p.number) = some p
      ∧ Descends hash chain p (past.drop (m + 1)) := by
  induction descends generalizing m with
  | genesis => simp at at_
  | @parent ref q rest _ small found next past ih =>
    cases m with
    | zero =>
      obtain rfl : q = p := by simpa using at_
      exact ⟨by omega, small, found, by simpa using past⟩
    | succ m =>
      obtain ⟨number, rest⟩ := ih (by simpa using at_)
      exact ⟨by omega, by simpa using rest⟩

/-- The loop from an ancestor that is known, by induction over the ancestors below it. -/
theorem iterate_eq (descends : Descends hash chain p past) (cache : List Hash)
    (small : p.number < 2 ^ 64)
    (found : chain (hash p) (UInt64.ofNat p.number) = some p) (below : n.toNat < p.number)
    (enough : p.number ≤ fuel)
    : ∃ k a, iterate chain n fuel cache (hash p) (UInt64.ofNat p.number)
        = some (hash a, cache ++ (past.take k).map hash)
      ∧ a ∈ past ∧ a.number = n.toNat := by
  induction descends generalizing fuel cache with
  | genesis zero => omega
  | @parent p q rest named smaller foundNext next past ih =>
    cases fuel with
    | zero => omega
    | succ fuel =>
      have lower : UInt64.ofNat p.number - 1 = UInt64.ofNat q.number := by
        rw [next, UInt64.ofNat_add]
        simp
      simp only [iterate, found, lower, named]
      split
      · rename_i reached
        exact ⟨1, q, by simp, by simp, by rw [reached, UInt64.toNat_ofNat_of_lt' smaller]⟩
      · rename_i more
        have notHere : n.toNat ≠ q.number := by
          intro reached
          exact more (by rw [← reached, UInt64.ofNat_toNat])
        obtain ⟨k, a, run, member, height⟩ :=
          ih (cache ++ [hash q]) smaller foundNext (by omega) (show q.number ≤ fuel by omega)
        exact ⟨k + 1, a, by simp [run], by simp [member], height⟩

variable (descends : Descends hash chain ref past) (below : n.toNat < ref.number)
include descends below

theorem index_eq : (UInt64.ofNat ref.number - n - 1).toNat = ref.number - n.toNat - 1 := by
  obtain ⟨first, atFirst⟩ : ∃ first, past[0]? = some first :=
    ⟨_, List.getElem?_eq_getElem (by rw [descends.length_eq]; omega)⟩
  obtain ⟨next, small, -⟩ := descends.ancestor atFirst
  simp only [UInt64.toNat_sub, UInt64.toNat_ofNat', UInt64.toNat_one]
  omega

/-- One query: before and after it, the cache holds the hashes of the first ancestors. -/
theorem getHashFn_eq (enough : ref.number ≤ fuel)
    : ∃ k a, getHashFn ref chain fuel ((past.take m).map hash) n
        = some (hash a, (past.take k).map hash)
      ∧ a ∈ past ∧ a.number = n.toNat := by
  have length := descends.length_eq
  -- The cache that the query works with is not empty.
  obtain ⟨j, filled, within⟩ : ∃ j,
      (if ((past.take m).map hash).length = 0 then [ref.parentHash] else (past.take m).map hash)
        = (past.take (j + 1)).map hash ∧ j < past.length := by
    cases descends with
    | genesis zero => omega
    | @parent _ _ rest named =>
      cases m with
      | zero => exact ⟨0, by simp [named]⟩
      | succ m => exact ⟨min m rest.length, by simp [List.take_eq_take_min], by simp⟩
  obtain ⟨p, last⟩ : ∃ p, past[j]? = some p := ⟨_, List.getElem?_eq_getElem within⟩
  obtain ⟨height, small, found, older⟩ := descends.ancestor last
  have size : ((past.take (j + 1)).map hash).length = j + 1 := by
    simp only [List.length_map, List.length_take]
    omega
  simp only [getHashFn, filled, descends.index_eq below]
  split
  · rename_i h cached
    simp only [List.getElem?_map, Option.map_eq_some_iff] at cached
    obtain ⟨a, inCache, rfl⟩ := cached
    have atIndex : past[ref.number - n.toNat - 1]? = some a := by
      rw [List.getElem?_take] at inCache
      split at inCache
      · exact inCache
      · cases inCache
    have number := (descends.ancestor atIndex).1
    exact ⟨j + 1, a, rfl, List.mem_of_getElem? atIndex, by omega⟩
  · rename_i missing
    have further : j + 1 ≤ ref.number - n.toNat - 1 := by
      simpa only [size] using List.getElem?_eq_none_iff.mp missing
    have lastHash : ((past.take (j + 1)).map hash).getLastD 0 = hash p := by
      simp [List.take_add_one, last]
    have lastNumber : UInt64.ofNat ref.number - UInt64.ofNat (j + 1) = UInt64.ofNat p.number := by
      rw [← height, UInt64.ofNat_add p.number]
      simp
    obtain ⟨k, a, run, member, number⟩ := older.iterate_eq
      ((past.take (j + 1)).map hash) small found (show n.toNat < p.number by omega)
      (show p.number ≤ fuel by omega)
    rw [size, lastHash, lastNumber, run, ← List.map_append, ← List.take_add]
    exact ⟨_, a, rfl, List.mem_of_mem_drop member, number⟩

end Descends

/-- The function made by `GetHashFn` answers every sequence of queries below the header's number,
each with the hash of the header's own ancestor of that number.
-/
theorem getHashFn_ancestors (descends : Descends hash chain ref past) (enough : ref.number ≤ fuel)
    (queries : List UInt64) (below : ∀ n ∈ queries, n.toNat < ref.number)
    : ∃ hs, getHashes ref chain fuel [] queries = some hs
      ∧ List.Forall₂ (fun n h => ∃ a ∈ past, a.number = n.toNat ∧ h = hash a) queries hs := by
  -- The cache holds the hashes of the first `m` ancestors; induction on the queries.
  suffices ∀ m, ∃ hs, getHashes ref chain fuel ((past.take m).map hash) queries = some hs
      ∧ List.Forall₂ (fun n h => ∃ a ∈ past, a.number = n.toNat ∧ h = hash a) queries hs from
    this 0
  induction queries with
  | nil => exact fun m => ⟨[], rfl, .nil⟩
  | cons n rest ih =>
      intro m
      obtain ⟨k, a, run, member, number⟩ :=
        descends.getHashFn_eq (m := m) (below n List.mem_cons_self) enough
      obtain ⟨hs, later, answers⟩ := ih (fun n member => below n (.tail _ member)) k
      exact ⟨hash a :: hs, by simp [getHashes, run, later, -List.map_take],
        .cons ⟨a, member, number, rfl⟩ answers⟩

/-- Three headers, hashed by their numbers, with the genesis block asked for twice. -/
theorem getHashFn_ancestors_two
    : let past : List Header := [{ parentHash := 1, number := 1 }, { number := 0 }]
      let hash (header : Header) : Hash := BitVec.ofNat 256 (header.number + 1)
      ∃ hs, getHashes { parentHash := 2, number := 2 } (fun h _ => past.find? (hash · = h)) 2 []
          [0, 1, 0] = some hs
        ∧ List.Forall₂ (fun (n : UInt64) h => ∃ a ∈ past, a.number = n.toNat ∧ h = hash a)
            [0, 1, 0] hs := by
  intro past hash
  have descends : Descends hash (fun h _ => past.find? (hash · = h))
      { parentHash := 2, number := 2 } past :=
    .parent rfl (by decide) rfl rfl (.parent rfl (by decide) rfl rfl (.genesis rfl))
  exact getHashFn_ancestors descends le_rfl [0, 1, 0] (by simp)

end GoBinacoin.Core
