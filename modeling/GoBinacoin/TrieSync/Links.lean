import GoBinacoin.TrieSync.Sync
import Mathlib.Logic.Relation

/-! What has to be there for a trie to be complete: the nodes below its root, and the tries and
codes attached to their leaves.
-/

namespace GoBinacoin.TrieSync

open MerkleTrie Rlp

variable {K : Callbacks}

def Link.entry {Callback : Type} : Link Callback → Entry
  | .subTrie root _ => .node root
  | .code hash => .code hash

/-- An empty trie and an empty code are complete without any data. -/
def Link.empty {Callback : Type} : Link Callback → Bool
  | .subTrie root _ => root = emptyRoot
  | .code hash => hash = emptyState

/-- What a node of a trie with the given callback refers to, at any depth inside the node. -/
def nodeLinks (callback : Option K.Callback) : Node → List (Link K.Callback)
  | .nil => []
  | .value leaf =>
      callback.elim [] fun c => (K.attached c leaf).filter fun link => !link.empty
  | .hash child => [.subTrie child callback]
  | .short _ val _ => nodeLinks callback val
  | .full children _ => nibbles.flatMap fun i => nodeLinks callback (children i)

/-- A state to be synced: the data by their hashes, and a root with the callback for its leaves.
Nothing hashes to zero.
-/
structure Source (K : Callbacks) where
  blob : Hash → Option Bytes
  root : Hash
  callback : Option K.Callback
  zero : blob 0 = none

namespace Source

variable (σ : Source K)

/-- What a trie, or a code, directly refers to. -/
def links : Link K.Callback → List (Link K.Callback)
  | .code _ => []
  | .subTrie root callback =>
      match σ.blob root with
      | none => []
      | some data =>
          match decodeNode (some root) data with
          | .error _ => []
          | .ok node => nodeLinks callback node

/-- One link refers to another. -/
def Refers (above below : Link K.Callback) : Prop := below ∈ σ.links above

/-- The whole state below the root. -/
def Reached (link : Link K.Callback) : Prop :=
  σ.root ≠ emptyRoot ∧ Relation.ReflTransGen σ.Refers (.subTrie σ.root σ.callback) link

/-- No node is part of tries with different callbacks. -/
def Unshared : Prop :=
  ∀ hash callback callback', σ.Reached (.subTrie hash callback)
    → σ.Reached (.subTrie hash callback') → callback = callback'

end Source

/-- A node without references and with short values only. -/
def Slight : Node → Prop
  | .nil => True
  | .value leaf => leaf.length < 32
  | .hash _ => False
  | .short _ val _ => Slight val
  | .full children _ => ∀ i, Slight (children i)

variable {node : Node} {buf content rest elems : Bytes}
  {decode : Bytes → Except MerkleTrie.DecodeError Node} {hash : Option Hash} {fuel : Nat}

/-- A slight node refers to nothing. -/
theorem nodeLinks_slight {callback : Option K.Callback} (slight : Slight node)
    : nodeLinks callback node = [] := by
  induction node with
  | nil => rfl
  | value leaf =>
    rcases callback with _ | c
    · rfl
    · rw [nodeLinks, Option.elim_some, K.small c leaf slight]
      rfl
  | hash child => exact absurd slight id
  | short key val flags ih => exact ih slight
  | full children flags ih =>
    rw [nodeLinks, List.flatMap_eq_nil_iff]
    intro i _
    exact ih i (slight i)

variable {kind : Kind} {ts cs : Nat} {children : Nibble → Node}

private theorem checkContent_ok {k : Kind} {tagsize contentsize : Nat}
    (tagged : kind = .list → 1 ≤ tagsize)
    (checked : checkContent buf kind tagsize contentsize = .ok (k, ts, cs))
    : cs ≤ buf.length - ts ∧ (k = .list → 1 ≤ ts) := by
  unfold checkContent at checked
  split at checked
  · cases checked
  · cases checked
    exact ⟨by omega, tagged⟩

/-- The content of a value fits behind its tag, and lists have a tag. -/
theorem readKind_ok (read : readKind buf = .ok (kind, ts, cs))
    : cs ≤ buf.length - ts ∧ (kind = .list → 1 ≤ ts) := by
  unfold readKind at read
  split at read
  · cases read
  · split at read
    · exact checkContent_ok (by nofun) read
    · split at read
      · split at read
        · cases read
        · exact checkContent_ok (by nofun) read
      · split at read
        · split at read
          · cases read
          · exact checkContent_ok (by nofun) read
        · split at read
          · exact checkContent_ok (fun _ => le_rfl) read
          · split at read
            · cases read
            · exact checkContent_ok (fun _ => Nat.le_add_left 1 _) read

/-- What is split off is no longer than the slice, and a list is longer than its content. -/
theorem split_ok (done : split buf = .ok (kind, content, rest))
    : content.length ≤ buf.length ∧ rest.length ≤ buf.length
      ∧ (kind = .list → content.length < buf.length - rest.length ∨ buf = []) := by
  unfold split at done
  split at done
  · cases done
  · rename_i k ts cs read
    cases done
    obtain ⟨fits, tagged⟩ := readKind_ok read
    simp only [List.length_take, List.length_drop]
    refine ⟨by omega, by omega, ?_⟩
    intro list
    have := tagged list
    cases buf with
    | nil => exact .inr rfl
    | cons byte bytes =>
      simp only [List.length_cons] at fits ⊢
      omega

/-- The content and the rest are no longer than the input. -/
theorem splitString_ok (done : splitString buf = .ok (content, rest))
    : content.length ≤ buf.length ∧ rest.length ≤ buf.length := by
  unfold splitString at done
  split at done
  · cases done
  · cases done
  · rename_i kind content' rest' _ found
    cases done
    obtain ⟨first, second, -⟩ := split_ok found
    exact ⟨first, second⟩

theorem splitList_ok (done : splitList buf = .ok (content, rest))
    : split buf = .ok (.list, content, rest) := by
  unfold splitList at done
  split at done
  · cases done
  · rename_i found
    cases done
    exact found
  · cases done

/-- A reference is an embedded node, nothing, or a hash. -/
theorem decodeRef_cases (done : decodeRef decode buf = .ok (node, rest))
    : (∃ content, split buf = .ok (.list, content, rest) ∧ buf.length - rest.length ≤ hashLen
        ∧ decode buf = .ok node)
      ∨ rest.length ≤ buf.length
        ∧ (node = .nil ∨ 32 ≤ buf.length ∧ ∃ child, node = .hash child) := by
  unfold decodeRef at done
  split at done
  · cases done
  · rename_i content rest' found
    split at done
    · cases done
    · rename_i size
      rcases decoded : decode buf with err | inner
      · rw [decoded] at done
        cases done
      rw [decoded] at done
      cases done
      exact .inl ⟨content, found, Nat.not_lt.mp size, rfl⟩
  · rename_i rest' found
    cases done
    exact .inr ⟨(split_ok found).2.1, .inl rfl⟩
  · rename_i val rest' _ found
    split at done
    · rename_i full
      cases done
      exact .inr ⟨(split_ok found).2.1, .inr ⟨full ▸ (split_ok found).1, _, rfl⟩⟩
    · cases done
  · cases done

/-- A short node has a leaf or a reference. -/
theorem decodeShort_cases (done : decodeShort decode hash elems = .ok node)
    : ∃ key val flags, node = .short key val flags
      ∧ ((∃ leaf, val = .value leaf ∧ leaf.length ≤ elems.length)
        ∨ ∃ buf rest, buf.length ≤ elems.length ∧ decodeRef decode buf = .ok (val, rest)) := by
  unfold decodeShort at done
  split at done
  · cases done
  · rename_i kbuf rest key
    have left := (splitString_ok key).2
    dsimp only at done
    split at done
    · split at done
      · cases done
      · rename_i value
        cases done
        exact ⟨_, _, _, rfl, .inl ⟨_, rfl, (splitString_ok value).1.trans left⟩⟩
    · split at done
      · cases done
      · rename_i child
        cases done
        exact ⟨_, _, _, rfl, .inr ⟨_, _, left, child⟩⟩

/-- A full node has its children and perhaps a leaf. -/
theorem decodeFull_cases (done : decodeFull decode hash elems = .ok node)
    : ∃ first children flags rest,
        decodeChildren decode children16 (fun _ => .nil) elems = .ok (first, rest)
        ∧ node = .full children flags
        ∧ ∀ i, children i = first i
          ∨ i = terminator ∧ ∃ leaf, children i = .value leaf ∧ leaf.length ≤ rest.length := by
  unfold decodeFull at done
  split at done
  · cases done
  · rename_i first rest decoded
    split at done
    · cases done
    · rename_i val rest' value
      cases done
      refine ⟨first, _, _, rest, decoded, rfl, fun i => ?_⟩
      split
      · by_cases last : i = terminator
        · subst last
          exact .inr ⟨rfl, val, Function.update_self .., (splitString_ok value).1⟩
        · exact .inl (Function.update_of_ne last ..)
      · exact .inl rfl

/-- What holds of every reference holds of the children; induction on their places. -/
theorem decodeChildren_all {P : Node → Prop} {Q : Bytes → Prop}
    (each : ∀ {buf rest node}, Q buf → decodeRef decode buf = .ok (node, rest) → P node ∧ Q rest)
    {indices : List Nibble} {children' : Nibble → Node} (before : ∀ i, P (children i))
    (start : Q elems) (done : decodeChildren decode indices children elems = .ok (children', rest))
    : (∀ i, P (children' i)) ∧ Q rest := by
  induction indices generalizing children elems with
  | nil =>
    cases done
    exact ⟨before, start⟩
  | cons i indices ih =>
    unfold decodeChildren at done
    split at done
    · cases done
    · rename_i child elems' decoded
      obtain ⟨holds, left⟩ := each start decoded
      refine ih (fun j => ?_) left done
      rw [Function.update_apply]
      split
      · exact holds
      · exact before j

theorem decodeRef_slight
    (embedded : ∀ buf node, buf.length < 32 → decode buf = .ok node → Slight node)
    (short : buf.length < 32) (done : decodeRef decode buf = .ok (node, rest))
    : Slight node ∧ rest.length < 32 := by
  rcases decodeRef_cases done with ⟨content, found, -, decoded⟩ | ⟨left, rfl | ⟨long, -⟩⟩
  · exact ⟨embedded buf node short decoded, (split_ok found).2.1.trans_lt short⟩
  · exact ⟨trivial, left.trans_lt short⟩
  · omega

private theorem mapError_ok {ε ε' α : Type} {x : Except ε α} {f : ε → ε'} {value : α}
    (done : x.mapError f = .ok value)
    : x = .ok value := by
  rcases x with err | inner
  · cases done
  · cases done
    rfl

/-- A decoded node was a list with the elements of a short node or of a full one. -/
theorem decodeNodeLoop_ok (done : decodeNodeLoop (fuel + 1) hash buf = .ok node)
    : ∃ elems rest, splitList buf = .ok (elems, rest)
      ∧ (decodeShort (decodeNodeLoop fuel none) hash elems = .ok node
        ∨ decodeFull (decodeNodeLoop fuel none) hash elems = .ok node) := by
  rw [decodeNodeLoop] at done
  split at done
  · cases done
  · split at done
    · cases done
    · rename_i elems rest list
      refine ⟨elems, rest, list, ?_⟩
      dsimp only at done
      split_ifs at done
      · exact .inl (mapError_ok done)
      · exact .inr (mapError_ok done)

/-- A node of few bytes has no room for a hash. -/
theorem decodeNodeLoop_slight
    (short : ∀ elems rest, splitList buf = .ok (elems, rest) → elems.length < 32)
    (done : decodeNodeLoop fuel hash buf = .ok node)
    : Slight node := by
  induction fuel generalizing hash buf node with
  | zero => cases done
  | succ fuel ih =>
    have embedded : ∀ buf node, buf.length < 32 → decodeNodeLoop fuel none buf = .ok node
        → Slight node := by
      intro buf node small decoded
      refine ih ?_ decoded
      intro elems rest list
      exact Nat.lt_of_le_of_lt (split_ok (splitList_ok list)).1 small
    obtain ⟨elems, rest, list, decoded | decoded⟩ := decodeNodeLoop_ok done
    · obtain ⟨key, val, flags, rfl, ⟨leaf, rfl, fits⟩ | ⟨buf, rest', fits, ref⟩⟩ :=
        decodeShort_cases decoded
      · exact fits.trans_lt (short elems rest list)
      · exact (decodeRef_slight embedded (fits.trans_lt (short elems rest list)) ref).1
    · obtain ⟨first, children, flags, rest', inner, rfl, same⟩ := decodeFull_cases decoded
      obtain ⟨slight, left⟩ := decodeChildren_all (decodeRef_slight embedded)
        (fun _ => by trivial) (short elems rest list) inner
      intro i
      rcases same i with kept | ⟨-, leaf, isLeaf, fits⟩
      · rw [kept]
        exact slight i
      · rw [isLeaf]
        exact fits.trans_lt left

/-- A child as `children` finds it: a value, a reference, or without any links. -/
inductive Direct : Node → Prop
  | value (leaf : Bytes) : Direct (.value leaf)
  | hash (child : Hash) : Direct (.hash child)
  | slight {node : Node} : Slight node → Direct node

def isValue : Node → Bool
  | .value _ => true
  | _ => false

/-- A decoded node is no bare value. -/
theorem decodeNodeLoop_isValue (done : decodeNodeLoop fuel hash buf = .ok node)
    : isValue node = false := by
  cases fuel with
  | zero => cases done
  | succ fuel =>
    obtain ⟨elems, rest, -, decoded | decoded⟩ := decodeNodeLoop_ok done
    · obtain ⟨_, _, _, rfl, -⟩ := decodeShort_cases decoded
      rfl
    · obtain ⟨_, _, _, _, -, rfl, -⟩ := decodeFull_cases decoded
      rfl

/-- A reference is a hash, or it has no links. -/
theorem decodeRef_direct (done : decodeRef (decodeNodeLoop fuel none) buf = .ok (node, rest))
    : Direct node ∧ isValue node = false := by
  rcases decodeRef_cases done with ⟨content, found, size, decoded⟩ | ⟨-, rfl | ⟨-, child, rfl⟩⟩
  · refine ⟨.slight (decodeNodeLoop_slight ?_ decoded), decodeNodeLoop_isValue decoded⟩
    intro elems left list
    cases (splitList_ok list).symm.trans found
    rcases (split_ok found).2.2 rfl with less | rfl
    · unfold hashLen at size
      omega
    · cases found
  · exact ⟨.slight trivial, rfl⟩
  · exact ⟨.hash child, rfl⟩

/-- Links are found at the surface of a decoded node, and only its last child is a value. -/
theorem decodeNode_direct (done : decodeNode hash buf = .ok node)
    : (∃ key val flags, node = .short key val flags ∧ Direct val)
      ∨ ∃ children flags, node = .full children flags
        ∧ ∀ i, Direct (children i) ∧ (i ≠ terminator → isValue (children i) = false) := by
  obtain ⟨elems, rest, list, decoded | decoded⟩ := decodeNodeLoop_ok done
  · left
    obtain ⟨key, val, flags, rfl, ⟨leaf, rfl, -⟩ | ⟨buf, rest', -, ref⟩⟩ :=
      decodeShort_cases decoded
    · exact ⟨key, _, flags, rfl, .value leaf⟩
    · exact ⟨key, val, flags, rfl, (decodeRef_direct ref).1⟩
  · right
    obtain ⟨first, children, flags, rest', inner, rfl, same⟩ := decodeFull_cases decoded
    obtain ⟨direct, -⟩ := decodeChildren_all (Q := fun _ => True)
      (fun _ ref => ⟨decodeRef_direct ref, trivial⟩) (fun _ => ⟨.slight (by trivial), rfl⟩) trivial
      inner
    refine ⟨children, flags, rfl, fun i => ?_⟩
    rcases same i with kept | ⟨last, leaf, isLeaf, -⟩
    · rw [kept]
      exact ⟨(direct i).1, fun _ => (direct i).2⟩
    · rw [isLeaf]
      exact ⟨.value leaf, fun other => absurd last other⟩

/-- At most one child is a leaf. -/
theorem children_single {path : HexKey} (last : ∀ i, i ≠ terminator → isValue (children i) = false)
    : ((nibbles.filterMap fun i =>
        if (children i).isNil then none else some (path ++ [i], children i)).filter
          fun child => isValue child.2).length ≤ 1 := by
  rw [List.filter_filterMap]
  have ends : nibbles.filterMap (fun i =>
      (if (children i).isNil then none else some (path ++ [i], children i)).filter
        fun child => isValue child.2)
      = (nibbles.filter (· = terminator)).filterMap fun i =>
        (if (children i).isNil then none else some (path ++ [i], children i)).filter
          fun child => isValue child.2 := by
    rw [List.filterMap_filter]
    congr 1
    funext i
    by_cases same : i = terminator
    · rw [if_pos (decide_eq_true same)]
    · have other : ¬decide (i = terminator) = true := by simpa using same
      rw [if_neg other]
      split
      · rfl
      · simp [last i same]
  rw [ends]
  exact (List.length_filterMap_le _ _).trans (by decide)

/-- The children of a decoded node have all its links, and at most one is a value. -/
theorem children_ok (path : HexKey)
    (callback : Option K.Callback) (done : decodeNode hash buf = .ok node)
    : ∃ list, Sync.children path node = .ok list
      ∧ (∀ child ∈ list, Direct child.2)
      ∧ (list.filter fun child => isValue child.2).length ≤ 1
      ∧ ∀ link, link ∈ nodeLinks callback node
        ↔ ∃ child ∈ list, link ∈ nodeLinks callback child.2 := by
  rcases decodeNode_direct done with ⟨key, val, flags, rfl, direct⟩ | ⟨children, flags, rfl, direct⟩
  · refine ⟨_, rfl, ?_, List.length_filter_le _ _, ?_⟩
    · intro child mem
      cases List.mem_singleton.mp mem
      exact direct
    · intro link
      simp [nodeLinks]
  · refine ⟨_, rfl, ?_, children_single fun i => (direct i).2, ?_⟩
    · intro child mem
      obtain ⟨i, -, found⟩ := List.mem_filterMap.mp mem
      split at found
      · cases found
      · cases found
        exact (direct i).1
    · intro link
      rw [nodeLinks, List.mem_flatMap]
      constructor
      · rintro ⟨i, mem, inside⟩
        refine ⟨(path ++ [i], children i), List.mem_filterMap.mpr ⟨i, mem, ?_⟩, inside⟩
        rw [if_neg]
        intro absent
        cases shape : children i with
        | nil =>
          rw [shape] at inside
          cases inside
        | value _ | hash _ | short _ _ _ | full _ _ =>
          rw [shape] at absent
          cases absent
      · rintro ⟨child, mem, inside⟩
        obtain ⟨i, member, found⟩ := List.mem_filterMap.mp mem
        split at found
        · cases found
        · cases found
          exact ⟨i, member, inside⟩

end GoBinacoin.TrieSync
