import GoBinacoin.TrieSync.Links
import Mathlib.Algebra.BigOperators.Group.Finset.Basic

/-! The scheduler is safe: a node is complete only after everything below it, and the counter of a
request is the number of its children that are still out.
-/

namespace GoBinacoin.TrieSync

open MerkleTrie Sync

variable {K : Callbacks} {σ : Source K}

/-- An entry is in the database or among some writes of the batch. -/
def Written (database : GoMap Entry Bytes) (batch : List (Entry × Bytes)) (e : Entry) : Prop :=
  e ∈ batch.map Prod.fst ∨ (database e).isSome

/-- The database holds data of the state, with everything below its nodes. -/
structure Closed (σ : Source K) (database : GoMap Entry Bytes) : Prop where
  data : ∀ e data, database e = some data → σ.blob e.hash = some data
  below : ∀ hash callback, σ.Reached (.subTrie hash callback)
    → (database (.node hash)).isSome
    → ∀ link ∈ σ.links (.subTrie hash callback), (database link.entry).isSome

/-- Each write of the batch, the newest first, has everything it refers to before it. -/
def Ordered (σ : Source K) (database : GoMap Entry Bytes) : List (Entry × Bytes) → Prop
  | [] => Closed σ database
  | (e, data) :: older =>
      Ordered σ database older ∧ σ.blob e.hash = some data
        ∧ ∀ hash, e = .node hash → ∃ callback, σ.Reached (.subTrie hash callback)
          ∧ ∀ link ∈ σ.links (.subTrie hash callback), Written database older link.entry

namespace Sync

def Present (s : Sync K.Callback) (e : Entry) : Prop := Written s.database s.membatch e

def Known (s : Sync K.Callback) (e : Entry) : Prop := e ∈ s.reqs ∨ s.Present e

/-- A child that is there, or requested on behalf of the parent. -/
def Covered (s : Sync K.Callback) (parent : Hash) (e : Entry) : Prop :=
  s.Present e ∨ e ∈ s.reqs ∧ parent ∈ (s.request e).parents

/-- How many children of a node are still out: the references to it from pending requests. -/
def outstanding (s : Sync K.Callback) (hash : Hash) : Nat :=
  ∑ e ∈ s.reqs, (s.request e).parents.count hash

end Sync

/-- The invariant inside a call. Of the references to a node, those of `owed` are counted but not
entered, or entered no more but still counted. The children of the `opened` node are being
entered.
-/
structure Invariant (σ : Source K) (owed : List Hash) (opened : Option Hash)
    (s : Sync K.Callback)
    : Prop where
  ordered : Ordered σ s.database s.membatch
  parents : ∀ e ∈ s.reqs, ∀ parent ∈ (s.request e).parents, .node parent ∈ s.reqs
  owing : ∀ parent ∈ owed, .node parent ∈ s.reqs
  deps : ∀ hash, .node hash ∈ s.reqs
    → (s.request (.node hash)).deps = (owed.count hash + s.outstanding hash : Nat)
  fresh : ∀ hash, .node hash ∈ s.reqs → (s.request (.node hash)).data = none
    → (s.request (.node hash)).deps = 0
  data : ∀ e ∈ s.reqs, ∀ data, (s.request e).data = some data → σ.blob e.hash = some data
  reached : ∀ hash, .node hash ∈ s.reqs
    → σ.Reached (.subTrie hash (s.request (.node hash)).callback)
  covered : ∀ hash, .node hash ∈ s.reqs → opened ≠ some hash
    → (s.request (.node hash)).deps ≠ 0
    → ∀ link ∈ σ.links (.subTrie hash (s.request (.node hash)).callback),
      s.Covered hash link.entry
  root : σ.root = emptyRoot ∨ s.Known (.node σ.root)

section

variable {s : Sync K.Callback} {owed : List Hash} {opened : Option Hash}

@[simp]
theorem Sync.modify_request_self (e : Entry) (change : Request K.Callback → Request K.Callback)
    : (s.modify e change).request e = change (s.request e) :=
  Function.update_self ..

variable {e other : Entry} {change : Request K.Callback → Request K.Callback} {hash parent : Hash}
  {req : Request K.Callback}

theorem Sync.modify_request_of_ne (ne : other ≠ e)
    (change : Request K.Callback → Request K.Callback)
    : (s.modify e change).request other = s.request other :=
  Function.update_of_ne ne ..

/-- A change that keeps a field of its request keeps the field of all of them. -/
theorem Sync.modify_keeps {α : Type} (field : Request K.Callback → α)
    (keeps : ∀ req, field (change req) = field req) (other : Entry)
    : field ((s.modify e change).request other) = field (s.request other) := by
  by_cases same : other = e
  · rw [same, modify_request_self, keeps]
  · rw [modify_request_of_ne same]

theorem Sync.outstanding_modify (parents : ∀ req, (change req).parents = req.parents) (hash : Hash)
    : (s.modify e change).outstanding hash = s.outstanding hash := by
  refine Finset.sum_congr rfl ?_
  intro other _
  rw [s.modify_keeps Request.parents parents]

theorem Sync.covered_modify (parents : ∀ req, (change req).parents = req.parents)
    : (s.modify e change).Covered hash other ↔ s.Covered hash other := by
  unfold Covered
  rw [s.modify_keeps Request.parents parents]
  rfl

/-- The data and the counter of a node may change together with what is owed. -/
theorem Invariant.modify {owed' : List Hash} (inv : Invariant σ owed opened s)
    (parents : ∀ req, (change req).parents = req.parents)
    (callback : ∀ req, (change req).callback = req.callback)
    (owing : ∀ parent ∈ owed', .node parent ∈ s.reqs)
    (deps : .node hash ∈ s.reqs
      → (change (s.request (.node hash))).deps = (owed'.count hash + s.outstanding hash : Nat))
    (others : ∀ other, other ≠ hash → owed'.count other = owed.count other)
    (fresh : (change (s.request (.node hash))).data = none
      → (change (s.request (.node hash))).deps = 0)
    (data : ∀ data, (change (s.request (.node hash))).data = some data
      → σ.blob hash = some data)
    (covered : opened ≠ some hash → (change (s.request (.node hash))).deps ≠ 0
      → (s.request (.node hash)).deps ≠ 0)
    : Invariant σ owed' opened (s.modify (.node hash) change) := by
  have callbackEq (e : Entry)
      : ((s.modify (.node hash) change).request e).callback = (s.request e).callback :=
    s.modify_keeps Request.callback callback e
  -- The changed request is the one of `hash`; the others are as before.
  have elsewhere {other : Hash} (ne : other ≠ hash)
      : (s.modify (.node hash) change).request (.node other) = s.request (.node other) :=
    modify_request_of_ne (fun same => ne (Entry.node.inj same)) change
  refine
    {
      ordered := inv.ordered
      parents := ?_
      owing := owing
      deps := ?_
      fresh := ?_
      data := ?_
      reached := ?_
      covered := ?_
      root := inv.root
    }
  · intro e pending parent mem
    rw [s.modify_keeps Request.parents parents] at mem
    exact inv.parents e pending parent mem
  · intro other pending
    rw [outstanding_modify parents]
    by_cases same : other = hash
    · subst same
      rw [modify_request_self]
      exact deps pending
    · rw [elsewhere same, others other same]
      exact inv.deps other pending
  · intro other pending
    by_cases same : other = hash
    · subst same
      rw [modify_request_self]
      exact fresh
    · rw [elsewhere same]
      exact inv.fresh other pending
  · intro e pending
    by_cases same : e = .node hash
    · subst same
      rw [modify_request_self]
      exact data
    · rw [modify_request_of_ne same]
      exact inv.data e pending
  · intro other pending
    rw [callbackEq]
    exact inv.reached other pending
  · intro other pending closed counting link mem
    rw [callbackEq] at mem
    rw [covered_modify parents]
    refine inv.covered other pending closed ?_ link mem
    by_cases same : other = hash
    · subst same
      rw [modify_request_self] at counting
      exact covered closed counting
    · rwa [elsewhere same] at counting

/-- The data arrive: from now on the children of the node are entered. -/
theorem Invariant.receive {data : Bytes} (inv : Invariant σ owed none s)
    (blob : σ.blob hash = some data) (pending : .node hash ∈ s.reqs)
    (missing : (s.request (.node hash)).data = none)
    : Invariant σ owed (some hash)
        (s.modify (.node hash) fun req => { req with data := some data }) := by
  have zero := inv.fresh hash pending missing
  have changed : Invariant σ owed none
      (s.modify (.node hash) fun req => { req with data := some data }) := by
    refine inv.modify (fun _ => rfl) (fun _ => rfl) inv.owing (inv.deps hash) (fun _ _ => rfl)
      nofun ?_ (fun _ counting => counting)
    intro received same
    cases same
    exact blob
  exact { changed with
    covered := fun other pending _ counting => changed.covered other pending nofun
      counting }

/-- Children of the opened node are counted before they are entered. -/
theorem Invariant.raise (inv : Invariant σ owed (some hash) s) (n : Nat)
    (pending : .node hash ∈ s.reqs) (received : (s.request (.node hash)).data ≠ none)
    : Invariant σ (List.replicate n hash ++ owed) (some hash)
        (s.modify (.node hash) fun req => { req with deps := req.deps + n }) := by
  refine inv.modify (fun _ => rfl) (fun _ => rfl) ?_ ?_ ?_ ?_ (inv.data _ pending) ?_
  · intro parent mem
    rcases List.mem_append.mp mem with new | old
    · rw [List.eq_of_mem_replicate new]
      exact pending
    · exact inv.owing parent old
  · intro _
    rw [inv.deps hash pending, List.count_append, List.count_replicate_self]
    push_cast
    ring
  · intro other ne
    rw [List.count_append, List.count_replicate, if_neg (by simpa using ne.symm), Nat.zero_add]
  · exact fun missing => absurd missing received
  · exact fun shut => absurd rfl shut

/-- A parent that is owed one is released. -/
theorem Invariant.release (inv : Invariant σ (parent :: owed) none s)
    : Invariant σ owed none (s.release parent) := by
  have pending := inv.owing parent List.mem_cons_self
  have positive : (s.request (.node parent)).deps ≠ 0 := by
    rw [inv.deps parent pending, List.count_cons_self]
    omega
  refine inv.modify (fun _ => rfl) (fun _ => rfl)
    (fun other mem => inv.owing other (.tail _ mem)) ?_ ?_ ?_
    (inv.data _ pending) (fun _ _ => positive)
  · intro _
    rw [inv.deps parent pending, List.count_cons_self]
    push_cast
    ring
  · intro other ne
    rw [List.count_cons_of_ne ne.symm]
  · exact fun missing => absurd (inv.fresh parent pending missing) positive

namespace Sync

/-- The references from one pending request, and from the others. -/
theorem outstanding_eq (pending : e ∈ s.reqs) (hash : Hash)
    : s.outstanding hash = (s.request e).parents.count hash
      + ∑ other ∈ s.reqs.erase e, (s.request other).parents.count hash :=
  (Finset.add_sum_erase s.reqs (fun e => (s.request e).parents.count hash) pending).symm

theorem schedule_of_mem (pending : e ∈ s.reqs) (req : Request K.Callback)
    : s.schedule e req
      = s.modify e fun old => { old with parents := old.parents ++ req.parents } :=
  if_pos pending

theorem schedule_request_of_ne (ne : other ≠ e) (req : Request K.Callback)
    : (s.schedule e req).request other = s.request other := by
  unfold schedule
  split
  · exact modify_request_of_ne ne _
  · exact Function.update_of_ne ne _ _

theorem schedule_request_new (fresh : e ∉ s.reqs) : (s.schedule e req).request e = req := by
  rw [schedule, if_neg fresh]
  exact Function.update_self ..

variable (e req)

theorem schedule_reqs : (s.schedule e req).reqs = insert e s.reqs := by
  unfold schedule
  split
  · rename_i pending
    exact (Finset.insert_eq_of_mem pending).symm
  · rfl

/-- A new request is outstanding for each of its parents. -/
theorem outstanding_schedule (hash : Hash)
    : (s.schedule e req).outstanding hash = s.outstanding hash + req.parents.count hash := by
  have rest : ∀ others : Finset Entry, e ∉ others
      → ∑ other ∈ others, ((s.schedule e req).request other).parents.count hash
        = ∑ other ∈ others, (s.request other).parents.count hash := by
    intro others apart
    refine Finset.sum_congr rfl ?_
    intro other mem
    have ne : other ≠ e := fun same => apart (same ▸ mem)
    rw [schedule_request_of_ne ne]
  by_cases pending : e ∈ s.reqs
  · have still : e ∈ (s.schedule e req).reqs := by
      rw [schedule_reqs]
      exact Finset.mem_insert_self ..
    rw [outstanding_eq still, outstanding_eq pending, schedule_reqs,
      Finset.insert_eq_of_mem pending, rest _ (Finset.notMem_erase e s.reqs),
      schedule_of_mem pending, modify_request_self, List.count_append]
    omega
  · rw [outstanding, schedule_reqs, Finset.sum_insert pending, schedule_request_new pending,
      rest _ pending, Nat.add_comm]
    rfl

/-- A request that was pending keeps all but its list of parents, which may grow. -/
theorem schedule_request (pending : other ∈ s.reqs)
    : ∃ more, (∀ parent ∈ more, parent ∈ req.parents)
      ∧ (s.schedule e req).request other
        = { s.request other with parents := (s.request other).parents ++ more } := by
  have unchanged (req : Request K.Callback) : req = { req with parents := req.parents ++ [] } := by
    rw [List.append_nil]
  by_cases same : other = e
  · subst same
    refine ⟨req.parents, fun _ mem => mem, ?_⟩
    rw [schedule_of_mem pending, modify_request_self]
  · refine ⟨[], nofun, ?_⟩
    rw [schedule_request_of_ne same]
    exact unchanged _

theorem schedule_database
    : (s.schedule e req).database = s.database ∧ (s.schedule e req).membatch = s.membatch := by
  unfold schedule
  split <;> exact ⟨rfl, rfl⟩

variable {e req}

theorem present_schedule : (s.schedule e req).Present other ↔ s.Present other := by
  obtain ⟨database, batch⟩ := s.schedule_database e req
  rw [Present, Present, database, batch]

theorem Covered.schedule (covered : s.Covered hash other)
    : (s.schedule e req).Covered hash other := by
  rcases covered with present | ⟨pending, parent⟩
  · exact .inl (present_schedule.mpr present)
  · obtain ⟨more, -, same⟩ := s.schedule_request e req pending
    refine .inr ⟨(s.schedule_reqs e req) ▸ Finset.mem_insert_of_mem pending, ?_⟩
    rw [same]
    exact List.mem_append_left _ parent

theorem covered_scheduled (above : parent ∈ req.parents) : (s.schedule e req).Covered parent e := by
  refine .inr ⟨(s.schedule_reqs e req) ▸ Finset.mem_insert_self .., ?_⟩
  by_cases pending : e ∈ s.reqs
  · rw [schedule_of_mem pending, modify_request_self]
    exact List.mem_append_right _ above
  · rw [schedule_request_new pending]
    exact above

end Sync

/-- A new request takes over what its parents are owed. -/
theorem Invariant.schedule (inv : Invariant σ (req.parents ++ owed) opened s)
    (blank : req.data = none) (zero : req.deps = 0)
    (reached : ∀ hash, e = .node hash → σ.Reached (.subTrie hash req.callback))
    : Invariant σ owed opened (s.schedule e req) := by
  have parentsPending : ∀ parent ∈ req.parents, Entry.node parent ∈ s.reqs :=
    fun parent mem => inv.owing parent (List.mem_append_left _ mem)
  -- Nobody refers to a node that is not pending.
  have unreferenced {hash : Hash} (absent : Entry.node hash ∉ s.reqs)
      : (req.parents ++ owed).count hash = 0 ∧ s.outstanding hash = 0 := by
    refine ⟨List.count_eq_zero.mpr fun mem => absent (inv.owing hash mem), ?_⟩
    refine Finset.sum_eq_zero ?_
    intro other pending
    exact List.count_eq_zero.mpr fun mem => absent (inv.parents other pending hash mem)
  have database := s.schedule_database e req
  have pendingOr {other : Entry} (mem : other ∈ (s.schedule e req).reqs)
      : other = e ∧ e ∉ s.reqs ∨ other ∈ s.reqs := by
    rw [schedule_reqs, Finset.mem_insert] at mem
    by_cases known : other ∈ s.reqs
    · exact .inr known
    · exact .inl ⟨mem.resolve_right known, fun old => known (mem.resolve_right known ▸ old)⟩
  have stays {other : Entry} (mem : other ∈ s.reqs) : other ∈ (s.schedule e req).reqs := by
    rw [schedule_reqs]
    exact Finset.mem_insert_of_mem mem
  refine
    {
      ordered := by rw [database.1, database.2]; exact inv.ordered
      parents := ?_
      owing := fun parent mem => stays (inv.owing parent (List.mem_append_right _ mem))
      deps := ?_
      fresh := ?_
      data := ?_
      reached := ?_
      covered := ?_
      root := ?_
    }
  · intro other mem parent above
    rcases pendingOr mem with ⟨rfl, fresh⟩ | old
    · rw [schedule_request_new fresh] at above
      exact stays (parentsPending parent above)
    · obtain ⟨more, extra, same⟩ := s.schedule_request e req old
      rw [same] at above
      rcases List.mem_append.mp above with before | added
      · exact stays (inv.parents other old parent before)
      · exact stays (parentsPending parent (extra parent added))
  · intro hash mem
    rw [outstanding_schedule]
    rcases pendingOr mem with ⟨rfl, fresh⟩ | old
    · obtain ⟨notOwed, none⟩ := unreferenced fresh
      rw [List.count_append] at notOwed
      rw [schedule_request_new fresh, zero]
      omega
    · obtain ⟨more, -, same⟩ := s.schedule_request e req old
      have before := inv.deps hash old
      rw [List.count_append] at before
      rw [same]
      change (s.request (.node hash)).deps = _
      omega
  · intro hash mem missing
    rcases pendingOr mem with ⟨rfl, fresh⟩ | old
    · rw [schedule_request_new fresh]
      exact zero
    · obtain ⟨more, -, same⟩ := s.schedule_request e req old
      rw [same] at missing ⊢
      exact inv.fresh hash old missing
  · intro other mem data received
    rcases pendingOr mem with ⟨rfl, fresh⟩ | old
    · rw [schedule_request_new fresh, blank] at received
      cases received
    · obtain ⟨more, -, same⟩ := s.schedule_request e req old
      rw [same] at received
      exact inv.data other old data received
  · intro hash mem
    rcases pendingOr mem with ⟨rfl, fresh⟩ | old
    · rw [schedule_request_new fresh]
      exact reached hash rfl
    · obtain ⟨more, -, same⟩ := s.schedule_request e req old
      rw [same]
      exact inv.reached hash old
  · intro hash mem shut counting link below
    rcases pendingOr mem with ⟨rfl, fresh⟩ | old
    · rw [schedule_request_new fresh] at counting
      exact absurd zero counting
    · obtain ⟨more, -, same⟩ := s.schedule_request e req old
      rw [same] at counting below
      exact (inv.covered hash old shut counting link below).schedule
  · rcases inv.root with empty | pending | present
    · exact .inl empty
    · exact .inr (.inl (stays pending))
    · exact .inr (.inr (present_schedule.mpr present))

/-- A request that can be committed: it has its data, and a node everything it refers to. -/
structure Ready (σ : Source K) (s : Sync K.Callback) (e : Entry) : Prop where
  pending : e ∈ s.reqs
  received : (s.request e).data ≠ none
  idle : ∀ hash, e = .node hash → (s.request e).deps = 0
  below : ∀ hash, e = .node hash
    → ∀ link ∈ σ.links (.subTrie hash (s.request e).callback), s.Present link.entry

theorem Sync.Present.fill (present : s.Present other) : (s.fill e).Present other :=
  present.imp_left fun mem => .tail _ mem

/-- What a filled request had owed its parents is still to be taken off. -/
theorem Invariant.fill (inv : Invariant σ owed opened s) (ready : Ready σ s e)
    (own : ∀ hash, opened = some hash → e = .node hash)
    : Invariant σ ((s.request e).parents ++ owed) none (s.fill e) := by
  -- Nobody refers to the node that is filled.
  have unreferenced {hash : Hash} (same : e = .node hash)
      : owed.count hash = 0 ∧ ∀ other ∈ s.reqs, (s.request other).parents.count hash = 0 := by
    have zero := inv.deps hash (same ▸ ready.pending)
    rw [← same, ready.idle hash same] at zero
    have sum : s.outstanding hash = 0 := by omega
    exact ⟨by omega, Finset.sum_eq_zero_iff.mp sum⟩
  have stays {parent : Hash} (pending : Entry.node parent ∈ s.reqs)
      (referred : parent ∈ owed ∨ ∃ other ∈ s.reqs, parent ∈ (s.request other).parents)
      : Entry.node parent ∈ (s.fill e).reqs := by
    refine Finset.mem_erase.mpr ⟨?_, pending⟩
    intro same
    obtain ⟨notOwed, notParent⟩ := unreferenced same.symm
    rcases referred with mem | ⟨other, member, mem⟩
    · exact List.count_eq_zero.mp notOwed mem
    · exact List.count_eq_zero.mp (notParent other member) mem
  have before {other : Entry} (mem : other ∈ (s.fill e).reqs) : other ∈ s.reqs :=
    Finset.mem_of_mem_erase mem
  have covers {hash : Hash} {other : Entry} (covered : s.Covered hash other)
      : (s.fill e).Covered hash other := by
    rcases covered with present | ⟨pending, parent⟩
    · exact .inl present.fill
    · by_cases same : other = e
      · exact .inl (.inl (same ▸ List.mem_cons_self))
      · exact .inr ⟨Finset.mem_erase.mpr ⟨same, pending⟩, parent⟩
  obtain ⟨data, received⟩ := Option.ne_none_iff_exists'.mp ready.received
  refine
    {
      ordered := ?_
      parents := fun other mem parent above =>
        stays (inv.parents other (before mem) parent above) (.inr ⟨other, before mem, above⟩)
      owing := ?_
      deps := ?_
      fresh := fun hash mem => inv.fresh hash (before mem)
      data := fun other mem => inv.data other (before mem)
      reached := fun hash mem => inv.reached hash (before mem)
      covered := ?_
      root := ?_
    }
  · change Ordered σ s.database ((e, (s.request e).data.getD []) :: s.membatch)
    rw [received]
    refine ⟨inv.ordered, inv.data e ready.pending data received, ?_⟩
    rintro hash rfl
    exact ⟨_, inv.reached hash ready.pending, ready.below hash rfl⟩
  · intro parent mem
    rcases List.mem_append.mp mem with above | old
    · exact stays (inv.parents e ready.pending parent above) (.inr ⟨e, ready.pending, above⟩)
    · exact stays (inv.owing parent old) (.inl old)
  · intro hash mem
    have total := inv.deps hash (before mem)
    rw [outstanding_eq ready.pending] at total
    change (s.request (.node hash)).deps
      = (((s.request e).parents ++ owed).count hash
        + ∑ other ∈ s.reqs.erase e, (s.request other).parents.count hash : Nat)
    rw [List.count_append]
    omega
  · intro hash mem _ counting link below
    refine covers (inv.covered hash (before mem) ?_ counting link below)
    intro same
    exact Finset.ne_of_mem_erase mem (own hash same).symm
  · rcases inv.root with empty | pending | present
    · exact .inl empty
    · by_cases same : Entry.node σ.root = e
      · exact .inr (.inr (.inl (same ▸ List.mem_cons_self)))
      · exact .inr (.inl (Finset.mem_erase.mpr ⟨same, pending⟩))
    · exact .inr (.inr present.fill)

/-- A parent without open children is ready. -/
theorem Invariant.release_ready (inv : Invariant σ (parent :: owed) none s)
    (zero : ((s.release parent).request (.node parent)).deps = 0)
    : Ready σ (s.release parent) (.node parent) := by
  have pending := inv.owing parent List.mem_cons_self
  have counted := inv.deps parent pending
  rw [List.count_cons_self] at counted
  have positive : (s.request (.node parent)).deps ≠ 0 := by omega
  have released : (s.request (.node parent)).deps - 1 = 0 := by
    rw [Sync.release, Sync.modify_request_self] at zero
    exact zero
  have unreferenced : s.outstanding parent = 0 := by omega
  refine
    {
      pending := pending
      received := ?_
      idle := fun hash same => by rw [zero]
      below := ?_
    }
  · rw [Sync.release, Sync.modify_request_self]
    exact fun missing => positive (inv.fresh parent pending missing)
  · rintro hash ⟨rfl⟩ link mem
    rw [Sync.release, Sync.modify_request_self] at mem
    rcases inv.covered parent pending nofun positive link mem with present | ⟨child, above⟩
    · exact present
    · have none := Finset.sum_eq_zero_iff.mp unreferenced _ child
      exact absurd above (List.count_eq_zero.mp none)

/-- The loop of `commit` over the parents, over what the nested calls do. -/
theorem release_loop {commit : Sync K.Callback → Entry → Except Fault (Sync K.Callback)}
    {bound : Nat}
    (nested : ∀ (s : Sync K.Callback) owed e, Invariant σ owed none s → Ready σ s e
      → s.reqs.card ≤ bound
      → ∃ s', commit s e = .ok s' ∧ Invariant σ owed none s' ∧ s'.reqs ⊆ s.reqs)
    (parents : List Hash) (inv : Invariant σ (parents ++ owed) none s)
    (enough : s.reqs.card ≤ bound)
    : ∃ s', parents.foldlM
          (fun s parent =>
            let s := s.release parent
            if (s.request (.node parent)).deps = 0 then commit s (.node parent) else .ok s) s
        = .ok s' ∧ Invariant σ owed none s' ∧ s'.reqs ⊆ s.reqs := by
  induction parents generalizing s with
  | nil => exact ⟨s, rfl, inv, Finset.Subset.refl _⟩
  | cons parent parents ih =>
    rw [List.foldlM_cons]
    have released : Invariant σ (parents ++ owed) none (s.release parent) := inv.release
    dsimp only
    split
    · rename_i zero
      obtain ⟨middle, done, invMiddle, fewer⟩ :=
        nested (s.release parent) _ (.node parent) released (inv.release_ready zero) enough
      obtain ⟨last, rest, invLast, fewest⟩ :=
        ih invMiddle ((Finset.card_le_card fewer).trans enough)
      refine ⟨last, ?_, invLast, fewest.trans fewer⟩
      rw [done]
      exact rest
    · obtain ⟨last, rest, invLast, fewest⟩ := ih released enough
      exact ⟨last, rest, invLast, fewest⟩

/-- Committing a ready request ends, by induction on the fuel, and keeps the invariant. -/
theorem commit_ok {fuel : Nat} (inv : Invariant σ owed opened s)
    (own : ∀ hash, opened = some hash → e = .node hash) (ready : Ready σ s e)
    (enough : s.reqs.card ≤ fuel)
    : ∃ s', s.commit fuel e = .ok s' ∧ Invariant σ owed none s' ∧ s'.reqs ⊆ s.reqs := by
  induction fuel generalizing s e owed opened with
  | zero =>
    have some := Finset.card_pos.mpr ⟨e, ready.pending⟩
    omega
  | succ fuel ih =>
    have fewer : (s.fill e).reqs.card ≤ fuel := by
      have erased := Finset.card_erase_of_mem ready.pending
      change (s.reqs.erase e).card ≤ fuel
      omega
    obtain ⟨last, done, invLast, fewest⟩ := release_loop
      (fun s owed e inv ready enough => ih inv nofun ready enough)
      (s.request e).parents (inv.fill ready own) fewer
    exact ⟨last, done, invLast, fewest.trans (Finset.erase_subset ..)⟩

end

end GoBinacoin.TrieSync
