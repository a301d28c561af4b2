import GoBinacoin.TrieSync.Order

/-! Every call keeps the scheduler's invariant, and what follows for whole runs. -/

namespace GoBinacoin.TrieSync

open MerkleTrie Sync

variable {K : Callbacks} {σ : Source K} {s : Sync K.Callback} {owed : List Hash}

/-! Entering the children of a node. -/

/-- What the database or the batch has is present. -/
theorem Sync.present_of_has {e : Entry} (has : s.has e = true) : s.Present e := by
  rw [Sync.has, Bool.or_eq_true, Bool.and_eq_true] at has
  rcases has with batched | ⟨-, stored⟩
  · obtain ⟨write, mem, same⟩ := List.any_eq_true.mp batched
    exact .inl (List.mem_map.mpr ⟨write, mem, of_decide_eq_true same⟩)
  · rcases found : s.database e with _ | data
    · rw [found] at stored
      cases stored
    · exact .inr (by rw [found]; rfl)

/-- Requests were added below a node; nothing was completed. -/
structure Grown (hash : Hash) (s s' : Sync K.Callback) : Prop where
  pending : s.reqs ⊆ s'.reqs
  covered : ∀ e, s.Covered hash e → s'.Covered hash e
  data : (s'.request (.node hash)).data = (s.request (.node hash)).data
  callback : (s'.request (.node hash)).callback = (s.request (.node hash)).callback

theorem Grown.refl (hash : Hash) (s : Sync K.Callback) : Grown hash s s :=
  ⟨Finset.Subset.refl _, fun _ covered => covered, rfl, rfl⟩

variable {hash : Hash} {requests : List (Hash × Request K.Callback)} {s' : Sync K.Callback}
  {database : GoMap Entry Bytes}

theorem Grown.trans {s middle s' : Sync K.Callback} (first : Grown hash s middle)
    (second : Grown hash middle s')
    : Grown hash s s' :=
  ⟨first.pending.trans second.pending, fun e covered => second.covered e (first.covered e covered),
    second.data.trans first.data, second.callback.trans first.callback⟩

theorem Grown.raise (hash : Hash) (s : Sync K.Callback) (n : Int)
    : Grown hash s (s.modify (.node hash) fun req => { req with deps := req.deps + n }) := by
  refine ⟨Finset.Subset.refl _, ?_, ?_, ?_⟩
  · intro e covered
    rw [covered_modify]
    · exact covered
    · exact fun _ => rfl
  · rw [modify_request_self]
  · rw [modify_request_self]

theorem Grown.schedule (pending : .node hash ∈ s.reqs) (e : Entry) (req : Request K.Callback)
    : Grown hash s (s.schedule e req) := by
  obtain ⟨more, -, same⟩ := s.schedule_request e req pending
  refine ⟨?_, fun _ covered => covered.schedule, ?_, ?_⟩
  · rw [schedule_reqs]
    exact Finset.subset_insert ..
  · rw [same]
  · rw [same]

/-- The node whose children are entered. -/
structure Opened (σ : Source K) (hash : Hash) (s : Sync K.Callback) : Prop where
  inv : Invariant σ [] (some hash) s
  pending : .node hash ∈ s.reqs
  received : (s.request (.node hash)).data ≠ none

theorem Opened.nonzero (opened : Opened σ hash s) : hash ≠ 0 := by
  rintro rfl
  obtain ⟨data, received⟩ := Option.ne_none_iff_exists'.mp opened.received
  have blob := opened.inv.data _ opened.pending data received
  change σ.blob 0 = some data at blob
  rw [σ.zero] at blob
  cases blob

/-- A request that is entered is covered. -/
theorem enter_ok (e : Entry) (req : Request K.Callback)
    (opened : Opened σ hash s) (blank : req.data = none) (zero : req.deps = 0)
    (orphan : req.parents = [])
    (reached : ∀ child, e = .node child → σ.Reached (.subTrie child req.callback))
    : ∃ s', s.enter e req hash = .ok s' ∧ Opened σ hash s' ∧ Grown hash s s'
      ∧ s'.Covered hash e := by
  unfold enter
  by_cases has : s.has e = true
  · rw [if_pos has]
    exact ⟨s, rfl, opened, .refl hash s, .inl (present_of_has has)⟩
  · rw [if_neg has, if_neg opened.nonzero, if_neg (not_not.mpr opened.pending)]
    dsimp only
    rw [orphan, List.nil_append]
    have raised := opened.inv.raise 1 opened.pending opened.received
    have grownFirst := Grown.raise hash s 1
    have stillPending := grownFirst.pending opened.pending
    have grown := grownFirst.trans (.schedule stillPending e { req with parents := [hash] })
    have scheduled : Invariant σ [] (some hash)
        ((s.modify (.node hash) fun ancestor =>
            { ancestor with deps := ancestor.deps + 1 }).schedule
          e { req with parents := [hash] }) :=
      Invariant.schedule raised blank zero reached
    refine ⟨_, rfl, ⟨scheduled, grown.pending opened.pending, ?_⟩, grown, ?_⟩
    · rw [grown.data]
      exact opened.received
    · exact covered_scheduled (List.mem_singleton_self hash)

/-- What a callback attaches to a leaf is covered, unless it is empty. -/
theorem attach_ok {link : Link K.Callback} (path : HexKey)
    (opened : Opened σ hash s) (reached : link.empty = false → σ.Reached link)
    : ∃ s', s.attach path hash link = .ok s' ∧ Opened σ hash s' ∧ Grown hash s s'
      ∧ (link.empty = false → s'.Covered hash link.entry) := by
  cases link with
  | subTrie root callback =>
    by_cases empty : root = emptyRoot
    · refine ⟨s, if_pos empty, opened, .refl hash s, ?_⟩
      intro full
      exact absurd empty (of_decide_eq_false full)
    · have child : ∀ child, Entry.node root = .node child
          → σ.Reached (.subTrie child callback) := by
        rintro child ⟨rfl⟩
        exact reached (decide_eq_false empty)
      obtain ⟨s', done, openedAfter, grown, covered⟩ :=
        enter_ok (.node root) { path := path, callback := callback } opened rfl rfl rfl child
      exact ⟨s', (if_neg empty).trans done, openedAfter, grown, fun _ => covered⟩
  | code codeHash =>
    by_cases empty : codeHash = emptyState
    · refine ⟨s, if_pos empty, opened, .refl hash s, ?_⟩
      intro full
      exact absurd empty (of_decide_eq_false full)
    · obtain ⟨s', done, openedAfter, grown, covered⟩ :=
        enter_ok (.code codeHash) { path := path } opened rfl rfl rfl
          nofun
      exact ⟨s', (if_neg empty).trans done, openedAfter, grown, fun _ => covered⟩

/-- All links of a node are covered, by induction on the links. -/
theorem attach_all {links : List (Link K.Callback)} (path : HexKey) (opened : Opened σ hash s)
    (reached : ∀ link ∈ links, link.empty = false → σ.Reached link)
    : ∃ s', links.foldlM (fun s link => s.attach path hash link) s = .ok s'
      ∧ Opened σ hash s' ∧ Grown hash s s'
      ∧ ∀ link ∈ links, link.empty = false → s'.Covered hash link.entry := by
  induction links generalizing s with
  | nil => exact ⟨s, rfl, opened, .refl hash s, nofun⟩
  | cons link links ih =>
    obtain ⟨middle, done, openedMiddle, grown, covered⟩ :=
      attach_ok path opened (reached link List.mem_cons_self)
    obtain ⟨s', rest, openedAfter, grownMore, all⟩ :=
      ih openedMiddle fun other mem => reached other (.tail _ mem)
    refine ⟨s', ?_, openedAfter, grown.trans grownMore, ?_⟩
    · rw [List.foldlM_cons, done]
      exact rest
    · intro other mem full
      rcases List.mem_cons.mp mem with rfl | later
      · exact grownMore.covered _ (covered full)
      · exact all other later full

/-- A request for a child of the opened node. -/
structure ChildRequest (σ : Source K) (hash : Hash) (child : Hash × Request K.Callback)
    : Prop where
  blank : child.2.data = none
  zero : child.2.deps = 0
  parents : child.2.parents = [hash]
  reached : σ.Reached (.subTrie child.1 child.2.callback)

/-- The links of some children are covered, or about to be requested. -/
def Expanded (hash : Hash) (links : List (Link K.Callback)) (s : Sync K.Callback)
    (requests : List (Hash × Request K.Callback))
    : Prop :=
  ∀ link ∈ links, s.Covered hash link.entry ∨ ∃ child ∈ requests, link.entry = .node child.1

/-- What is known after the loop over the children of a node. -/
structure Scanned (σ : Source K) (hash : Hash) (links : List (Link K.Callback))
    (requests : List (Hash × Request K.Callback))
    (s s' : Sync K.Callback) (result : Except K.Error (List (Hash × Request K.Callback)))
    : Prop where
  opened : Opened σ hash s'
  grown : Grown hash s s'
  children : ∀ all, result = .ok all
    → (∀ child ∈ requests, child ∈ all) ∧ (∀ child ∈ all, ChildRequest σ hash child)
      ∧ Expanded hash links s' all

/-- Only a key of odd length fails. -/
theorem leafPaths_error {path : HexKey} {fault : Fault} (failed : leafPaths path = .error fault)
    : fault = .oddHexKey := by
  unfold leafPaths at failed
  split at failed
  · split at failed <;> cases failed
    rfl
  · split at failed
    · split at failed <;> cases failed
      rfl
    · cases failed

/-- A callback fails without effect, or what it attaches is covered. -/
theorem callback_ok {c : K.Callback} (path : HexKey) (leaf : Bytes) (opened : Opened σ hash s)
    (reached : ∀ link ∈ K.attached c leaf, link.empty = false → σ.Reached link)
    : callback c hash path leaf s = .error .oddHexKey
      ∨ ∃ s' err, callback c hash path leaf s = .ok (s', err)
        ∧ Opened σ hash s' ∧ Grown hash s s'
        ∧ (err = none → ∀ link ∈ K.attached c leaf, link.empty = false
          → s'.Covered hash link.entry) := by
  unfold callback
  rcases paths : leafPaths path with fault | list
  · rw [leafPaths_error paths]
    exact .inl rfl
  right
  dsimp only
  rcases K.fails c list leaf with _ | err
  · obtain ⟨s', done, openedAfter, grown, covered⟩ := attach_all path opened reached
    refine ⟨s', none, ?_, openedAfter, grown, fun _ => covered⟩
    rw [done]
  · exact ⟨s, some err, rfl, opened, .refl hash s, nofun⟩

variable {callback : Option K.Callback} {list : List (HexKey × Node)} {err : K.Error}
  {batch : List (Entry × Bytes)}

/-- All children of a node are expanded, by induction on the list. -/
theorem expand_ok (list : List (HexKey × Node))
    (requests : List (Hash × Request K.Callback)) (opened : Opened σ hash s)
    (same : (s.request (.node hash)).callback = callback) (direct : ∀ child ∈ list, Direct child.2)
    (reached : ∀ child ∈ list, ∀ link ∈ nodeLinks callback child.2, σ.Reached link)
    (earlier : ∀ child ∈ requests, ChildRequest σ hash child)
    : expand hash list s requests = .error .oddHexKey
      ∨ ∃ s' result, expand hash list s requests = .ok (s', result)
        ∧ Scanned σ hash (list.flatMap fun child => nodeLinks callback child.2) requests s s'
          result := by
  induction list generalizing s requests with
  | nil =>
    refine .inr ⟨s, .ok requests, rfl, opened, .refl hash s, ?_⟩
    rintro all ⟨rfl⟩
    exact ⟨fun _ mem => mem, earlier, nofun⟩
  | cons child list ih =>
    obtain ⟨path, node⟩ := child
    have directRest := fun other mem => direct other (.tail _ mem)
    have reachedRest := fun other mem => reached other (.tail _ mem)
    have reachedHere := reached (path, node) List.mem_cons_self
    have directHere := direct (path, node) List.mem_cons_self
    -- It is enough to go on from a state in which this child's links are dealt with.
    have goOn {middle : Sync K.Callback} {more : List (Hash × Request K.Callback)}
        (openedMiddle : Opened σ hash middle) (grown : Grown hash s middle)
        (keeps : ∀ child ∈ requests, child ∈ more)
        (fine : ∀ child ∈ more, ChildRequest σ hash child)
        (here : Expanded hash (nodeLinks callback node) middle more)
        : expand hash list middle more = .error .oddHexKey
          ∨ ∃ s' result, expand hash list middle more = .ok (s', result)
            ∧ Scanned σ hash
              (((path, node) :: list).flatMap fun child => nodeLinks callback child.2)
              requests s s' result := by
      rcases ih more openedMiddle (grown.callback.trans same) directRest reachedRest fine
        with odd | ⟨s', result, done, scanned⟩
      · exact .inl odd
      · refine .inr ⟨s', result, done, scanned.opened, grown.trans scanned.grown, ?_⟩
        intro all ok
        obtain ⟨kept, good, rest⟩ := scanned.children all ok
        refine ⟨fun other mem => kept other (keeps other mem), good, ?_⟩
        intro link mem
        rw [List.flatMap_cons] at mem
        rcases List.mem_append.mp mem with first | later
        · rcases here link first with covered | ⟨other, member, entry⟩
          · exact .inl (scanned.grown.covered _ covered)
          · exact .inr ⟨other, kept other member, entry⟩
        · exact rest link later
    -- An embedded node is passed over, and has no links.
    have embedded (slight : Slight node) : Expanded hash (nodeLinks callback node) s requests := by
      rw [nodeLinks_slight slight]
      exact nofun
    cases node with
    | nil => exact goOn opened (.refl hash s) (fun _ mem => mem) earlier (embedded trivial)
    | short key val flags =>
      cases directHere with
      | slight slight =>
        exact goOn opened (.refl hash s) (fun _ mem => mem) earlier (embedded slight)
    | full children flags =>
      cases directHere with
      | slight slight =>
        exact goOn opened (.refl hash s) (fun _ mem => mem) earlier (embedded slight)
    | value leaf =>
      rw [expand, same]
      rcases callback with _ | c
      · exact goOn opened (.refl hash s) (fun _ mem => mem) earlier nofun
      have attached : ∀ link ∈ K.attached c leaf, link.empty = false → σ.Reached link :=
        fun link mem full => reachedHere link
          (List.mem_filter.mpr ⟨mem, by rw [full]; rfl⟩)
      dsimp only
      rcases callback_ok path leaf opened attached
        with odd | ⟨middle, err, done, openedMiddle, grown, covered⟩
      · left
        rw [odd]
      · rw [done]
        rcases err with _ | err
        · refine goOn openedMiddle grown (fun _ mem => mem) earlier ?_
          intro link mem
          obtain ⟨member, full⟩ := List.mem_filter.mp mem
          exact .inl (covered rfl link member (Bool.not_eq_true' _ ▸ full))
        · exact .inr ⟨middle, .error err, rfl, openedMiddle, grown, nofun⟩
    | hash childHash =>
      rw [expand, same]
      split
      · rename_i has
        refine goOn opened (.refl hash s) (fun _ mem => mem) earlier ?_
        intro link mem
        rw [List.mem_singleton.mp mem]
        exact .inl (.inl (present_of_has has))
      · refine goOn opened (.refl hash s) (fun _ mem => List.mem_append_left _ mem) ?_ ?_
        · intro other mem
          rcases List.mem_append.mp mem with old | new
          · exact earlier other old
          · rw [List.mem_singleton.mp new]
            exact ⟨rfl, rfl, rfl, reachedHere _ (List.mem_singleton_self _)⟩
        · intro link mem
          rw [List.mem_singleton.mp mem]
          exact .inr ⟨_, List.mem_append_right _ (List.mem_singleton_self _), rfl⟩

/-! Process. -/

/-- The requests for the children enter the references that were counted for them. -/
theorem schedule_all (inv : Invariant σ (List.replicate requests.length hash) (some hash) s)
    (pending : .node hash ∈ s.reqs) (fine : ∀ child ∈ requests, ChildRequest σ hash child)
    : ∃ s', requests.foldl (fun s child => s.schedule (.node child.1) child.2) s = s'
      ∧ Invariant σ [] (some hash) s' ∧ Grown hash s s'
      ∧ ∀ child ∈ requests, s'.Covered hash (.node child.1) := by
  induction requests generalizing s with
  | nil => exact ⟨s, rfl, inv, .refl hash s, nofun⟩
  | cons child requests ih =>
    have good := fine child List.mem_cons_self
    have owing : Invariant σ (child.2.parents ++ List.replicate requests.length hash)
        (some hash) s := by
      rw [good.parents]
      exact inv
    have scheduled : Invariant σ (List.replicate requests.length hash) (some hash)
        (s.schedule (.node child.1) child.2) := by
      refine owing.schedule good.blank good.zero ?_
      rintro other ⟨rfl⟩
      exact good.reached
    have grown := Grown.schedule pending (.node child.1) child.2
    obtain ⟨s', done, invAfter, grownMore, all⟩ := ih scheduled (grown.pending pending)
      fun other mem => fine other (.tail _ mem)
    refine ⟨s', done, invAfter, grown.trans grownMore, ?_⟩
    intro other mem
    rcases List.mem_cons.mp mem with rfl | later
    · refine grownMore.covered _ (covered_scheduled ?_)
      rw [good.parents]
      exact List.mem_singleton_self hash
    · exact all other later

/-- A node whose links are all covered is done. -/
theorem Invariant.shut (inv : Invariant σ owed (some hash) s)
    (all : ∀ link ∈ σ.links (.subTrie hash (s.request (.node hash)).callback),
      s.Covered hash link.entry)
    : Invariant σ owed none s :=
  { inv with
    covered := fun other pending _ counting => by
      by_cases same : other = hash
      · subst same
        exact all
      · exact inv.covered other pending (fun h => same (Option.some.inj h).symm) counting }

/-- The node is committed, or its children are scheduled. -/
theorem settle_ok (opened : Opened σ hash s) (fine : ∀ child ∈ requests, ChildRequest σ hash child)
    (expanded : Expanded hash (σ.links (.subTrie hash (s.request (.node hash)).callback)) s
      requests)
    : ∃ s', s.settle hash requests = .ok s' ∧ Invariant σ [] none s' := by
  unfold settle
  split
  · rename_i idle
    have empty := List.length_eq_zero_iff.mp idle.1
    have unreferenced : s.outstanding hash = 0 := by
      have counted := opened.inv.deps hash opened.pending
      rw [idle.2] at counted
      omega
    have below : ∀ link ∈ σ.links (.subTrie hash (s.request (.node hash)).callback),
        s.Present link.entry := by
      intro link mem
      rcases expanded link mem with (present | ⟨pending, above⟩) | ⟨child, member, -⟩
      · exact present
      · have none := Finset.sum_eq_zero_iff.mp unreferenced _ pending
        exact absurd above (List.count_eq_zero.mp none)
      · rw [empty] at member
        cases member
    have ready : Ready σ s (.node hash) := by
      refine ⟨opened.pending, opened.received, fun _ _ => idle.2, ?_⟩
      rintro other ⟨rfl⟩
      exact below
    have own : ∀ other, some hash = some other → Entry.node hash = .node other := by
      rintro other ⟨rfl⟩
      rfl
    obtain ⟨s', done, inv, -⟩ := commit_ok opened.inv own ready (Nat.le_refl _)
    exact ⟨s', done, inv⟩
  · have raised := opened.inv.raise requests.length opened.pending opened.received
    rw [List.append_nil] at raised
    have grown := Grown.raise hash s requests.length
    obtain ⟨s', done, inv, grownMore, covered⟩ :=
      schedule_all raised (grown.pending opened.pending) fine
    have total := grown.trans grownMore
    refine ⟨s', congrArg Except.ok done, inv.shut ?_⟩
    rw [total.callback]
    intro link mem
    rcases expanded link mem with before | ⟨child, member, same⟩
    · exact total.covered _ before
    · rw [same]
      exact covered child member

/-- A code may arrive at any time. -/
theorem Invariant.receiveCode {data : Bytes} (inv : Invariant σ owed none s)
    (blob : σ.blob hash = some data)
    : Invariant σ owed none
        (s.modify (.code hash) fun req => { req with data := some data }) := by
  have nodes (other : Hash)
      : (s.modify (.code hash) fun req => { req with data := some data }).request (.node other)
        = s.request (.node other) := by
    have apart : Entry.node other ≠ .code hash := nofun
    exact modify_request_of_ne apart _
  have keeps (req : Request K.Callback)
      : ({ req with data := some data } : Request K.Callback).parents = req.parents := rfl
  refine
    {
      ordered := inv.ordered
      parents := ?_
      owing := inv.owing
      deps := ?_
      fresh := ?_
      data := ?_
      reached := ?_
      covered := ?_
      root := inv.root
    }
  · intro e pending parent above
    rw [s.modify_keeps Request.parents keeps] at above
    exact inv.parents e pending parent above
  · intro other pending
    rw [nodes, outstanding_modify keeps]
    exact inv.deps other pending
  · intro other pending
    rw [nodes]
    exact inv.fresh other pending
  · intro e pending received found
    by_cases same : e = .code hash
    · subst same
      rw [modify_request_self] at found
      cases found
      exact blob
    · rw [modify_request_of_ne same] at found
      exact inv.data e pending received found
  · intro other pending
    rw [nodes]
    exact inv.reached other pending
  · intro other pending shut counting link mem
    rw [nodes] at counting mem
    rw [covered_modify keeps]
    exact inv.covered other pending shut counting link mem

/-- Processing genuine code keeps the invariant. -/
theorem processCode_ok {data : Bytes} (inv : Invariant σ [] none s) (blob : σ.blob hash = some data)
    : ∃ s' filled, s.processCode hash data = .ok (s', filled) ∧ Invariant σ [] none s' := by
  unfold processCode
  split
  · rename_i requested
    have received := inv.receiveCode blob
    have ready : Ready σ (s.modify (.code hash) fun req => { req with data := some data })
        (.code hash) := by
      refine ⟨requested.1, ?_, nofun, nofun⟩
      rw [modify_request_self]
      exact nofun
    obtain ⟨s', done, invAfter, -⟩ := commit_ok received nofun ready (Nat.le_refl _)
    refine ⟨s', true, ?_, invAfter⟩
    dsimp only
    rw [done]
  · exact ⟨s, false, rfl, inv⟩

/-- Only a leaf makes the expansion fail. -/
theorem expand_values (failed : expand hash list s requests = .ok (s', .error err))
    : list.filter (fun child => isValue child.2) ≠ [] := by
  induction list generalizing requests with
  | nil => cases failed
  | cons child list ih =>
    obtain ⟨path, node⟩ := child
    cases node with
    | value leaf => exact nofun
    | hash childHash =>
      rw [expand] at failed
      split at failed
      · exact ih failed
      · exact ih failed
    | nil | short _ _ _ | full _ _ => exact ih failed

/-- A callback that fails has registered nothing, and it is the only one for a node. -/
theorem expand_failed (single : (list.filter fun child => isValue child.2).length ≤ 1)
    (failed : expand hash list s requests = .ok (s', .error err))
    : s' = s := by
  induction list generalizing s requests with
  | nil => cases failed
  | cons child list ih =>
    obtain ⟨path, node⟩ := child
    cases node with
    | nil | short _ _ _ | full _ _ => exact ih single failed
    | hash childHash =>
      rw [expand] at failed
      split at failed
      · exact ih single failed
      · exact ih single failed
    | value leaf =>
      have none : list.filter (fun child => isValue child.2) = [] := by
        rw [List.filter_cons_of_pos (by rfl), List.length_cons] at single
        exact List.length_eq_zero_iff.mp (by omega)
      rw [expand] at failed
      split at failed
      · exact absurd none (expand_values failed)
      · split at failed
        · cases failed
        · rename_i called
          cases failed
          unfold callback at called
          split at called
          · cases called
          · split at called
            · cases called
              rfl
            · split at called <;> cases called
        · exact absurd none (expand_values failed)

/-- Processing a genuine node keeps the invariant, but for keys of odd length. -/
theorem processNode_ok {data : Bytes} (inv : Invariant σ [] none s)
    (blob : σ.blob hash = some data) (pending : .node hash ∈ s.reqs)
    (missing : (s.request (.node hash)).data = none)
    : s.processNode hash data = .error .oddHexKey
      ∨ ∃ s' err, s.processNode hash data = .ok (s', err) ∧ Invariant σ [] none s' := by
  unfold processNode
  rcases decoded : decodeNode (some hash) data with err | node
  · exact .inr ⟨s, _, rfl, inv⟩
  have received := inv.receive blob pending missing
  dsimp only
  generalize arrived : (s.modify (.node hash) fun req => { req with data := some data })
    = after at received ⊢
  have opened : Opened σ hash after := by
    refine ⟨received, arrived ▸ pending, ?_⟩
    rw [← arrived, modify_request_self]
    exact nofun
  obtain ⟨list, children, direct, single, links⟩ := children_ok
    (after.request (.node hash)).path (after.request (.node hash)).callback decoded
  have linksEq : σ.links (.subTrie hash (after.request (.node hash)).callback)
      = nodeLinks (after.request (.node hash)).callback node := by
    rw [Source.links, blob]
    dsimp only
    rw [decoded]
  have reached : ∀ child ∈ list,
      ∀ link ∈ nodeLinks (after.request (.node hash)).callback child.2, σ.Reached link := by
    intro child mem link inside
    obtain ⟨full, path⟩ := received.reached hash opened.pending
    refine ⟨full, path.tail ?_⟩
    rw [Source.Refers, linksEq, links]
    exact ⟨child, mem, inside⟩
  rw [children]
  dsimp only
  rcases expand_ok list [] opened rfl direct reached nofun
    with odd | ⟨middle, result, done, scanned⟩
  · left
    rw [odd]
  · rw [done]
    right
    rcases result with err | requests
    · refine ⟨middle, _, rfl, ?_⟩
      rw [expand_failed single done]
      -- The node keeps its data and is never complete.
      have idle : (after.request (.node hash)).deps = 0 := by
        rw [← arrived, modify_request_self]
        exact inv.fresh hash pending missing
      exact { received with
        covered := fun other mem _ counting => received.covered other mem
          (fun same => counting (Option.some.inj same ▸ idle)) counting }
    · obtain ⟨-, fine, expanded⟩ := scanned.children requests rfl
      have all : Expanded hash
          (σ.links (.subTrie hash (middle.request (.node hash)).callback)) middle
          requests := by
        rw [scanned.grown.callback, linksEq]
        intro link mem
        obtain ⟨child, member, inside⟩ := (links link).mp mem
        exact expanded link (List.mem_flatMap.mpr ⟨child, member, inside⟩)
      obtain ⟨s', settled, invAfter⟩ := settle_ok scanned.opened fine all
      refine ⟨s', none, ?_, invAfter⟩
      dsimp only
      rw [settled]

/-- Processing genuine data keeps the invariant, but for keys of odd length. -/
theorem process_ok {data : Bytes} (inv : Invariant σ [] none s) (blob : σ.blob hash = some data)
    : s.process hash data = .error .oddHexKey
      ∨ ∃ s' err, s.process hash data = .ok (s', err) ∧ Invariant σ [] none s' := by
  unfold process
  split
  · exact .inr ⟨s, _, rfl, inv⟩
  · obtain ⟨middle, filled, done, invMiddle⟩ := processCode_ok inv blob
    rw [done]
    dsimp only
    split
    · rename_i requested
      exact processNode_ok invMiddle blob requested.1 requested.2
    · exact .inr ⟨middle, _, rfl, invMiddle⟩

/-- Two states with the same requests and the same data. -/
structure SameRequests (s s' : Sync K.Callback) : Prop where
  database : s'.database = s.database
  membatch : s'.membatch = s.membatch
  reqs : s'.reqs = s.reqs
  request : s'.request = s.request

/-- The queue, the fetches and the bloom filter do not matter to the invariant. -/
theorem SameRequests.invariant {opened : Option Hash}
    (same : SameRequests s s') (inv : Invariant σ owed opened s)
    : Invariant σ owed opened s' := by
  obtain ⟨database, membatch, reqs, request, queue, fetches, bloom⟩ := s
  obtain ⟨database', membatch', reqs', request', queue', fetches', bloom'⟩ := s'
  obtain ⟨sameDatabase, sameBatch, sameReqs, sameRequest⟩ := same
  dsimp only at sameDatabase sameBatch sameReqs sameRequest
  subst sameDatabase sameBatch sameReqs sameRequest
  exact ⟨inv.ordered, inv.parents, inv.owing, inv.deps, inv.fresh, inv.data, inv.reached,
    inv.covered, inv.root⟩

/-- Asking for missing data leaves the requests alone. -/
theorem missingLoop_same (max : Int) (fuel : Nat) (s : Sync K.Callback) (tasks : Tasks)
    : missingLoop max fuel s tasks = .error .oddHexKey
      ∨ ∃ s' tasks', missingLoop max fuel s tasks = .ok (s', tasks') ∧ SameRequests s s' := by
  induction fuel generalizing s tasks with
  | zero => exact .inr ⟨s, tasks, rfl, rfl, rfl, rfl, rfl⟩
  | succ fuel ih =>
    rw [missingLoop]
    split
    · exact .inr ⟨s, tasks, rfl, rfl, rfl, rfl, rfl⟩
    · rename_i hash prio _
      dsimp only
      split
      · exact .inr ⟨s, tasks, rfl, rfl, rfl, rfl, rfl⟩
      · split
        · split
          · exact .inl rfl
          · rcases ih _ _ with odd | ⟨s', tasks', done, same⟩
            · exact .inl odd
            · exact .inr ⟨s', tasks', done, same.database, same.membatch, same.reqs, same.request⟩
        · rcases ih _ _ with odd | ⟨s', tasks', done, same⟩
          · exact .inl odd
          · exact .inr ⟨s', tasks', done, same.database, same.membatch, same.reqs, same.request⟩

/-- A flush writes the batch to the database. -/
theorem flush_written (database : GoMap Entry Bytes) (batch : List (Entry × Bytes)) (e : Entry)
    : ((batch.foldr (fun write db => db.set write.1 write.2) database) e).isSome
      ↔ Written database batch e := by
  induction batch with
  | nil => exact ⟨.inr, fun written => written.resolve_left nofun⟩
  | cons write batch ih =>
    rw [List.foldr_cons, GoMap.set_apply]
    split
    · rename_i same
      exact ⟨fun _ => .inl (same ▸ List.mem_cons_self), fun _ => rfl⟩
    · rename_i other
      rw [ih, Written, Written, List.map_cons, List.mem_cons, or_iff_right other]

/-- A node that has been written has everything it refers to, in the database or in the batch. -/
theorem Ordered.below (unshared : σ.Unshared) (ordered : Ordered σ database batch)
    (reached : σ.Reached (.subTrie hash callback)) (written : Written database batch (.node hash))
    : ∀ link ∈ σ.links (.subTrie hash callback), Written database batch link.entry := by
  induction batch with
  | nil =>
    intro link mem
    have closed : Closed σ database := ordered
    have stored := written.resolve_left nofun
    exact .inr (closed.below hash callback reached stored link mem)
  | cons write older ih =>
    obtain ⟨e, data⟩ := write
    obtain ⟨before, -, here⟩ := ordered
    intro link mem
    have later {other : Entry} (earlier : Written database older other)
        : Written database ((e, data) :: older) other :=
      earlier.imp_left fun mem => .tail _ mem
    rcases written with batched | stored
    · rcases List.mem_cons.mp batched with rfl | old
      · obtain ⟨callback', reached', below⟩ := here hash rfl
        cases unshared hash callback callback' reached reached'
        exact later (below link mem)
      · exact later (ih before (.inl old) link mem)
    · exact later (ih before (.inr stored) link mem)

/-- What is written is genuine. -/
theorem Ordered.data (ordered : Ordered σ database batch)
    : ∀ e data, (batch.foldr (fun write db => db.set write.1 write.2) database) e = some data
      → σ.blob e.hash = some data := by
  induction batch with
  | nil => exact Closed.data ordered
  | cons write older ih =>
    obtain ⟨before, blob, -⟩ := ordered
    intro e data found
    rcases GoMap.of_set found with ⟨rfl, rfl⟩ | old
    · exact blob
    · exact ih before e data old

/-- A flush keeps the invariant. -/
theorem flush_ok (unshared : σ.Unshared) (inv : Invariant σ [] none s)
    : Invariant σ [] none s.flush := by
  have present (e : Entry) : s.flush.Present e ↔ s.Present e := by
    refine ⟨?_, fun written => .inr ((flush_written _ _ e).mpr written)⟩
    intro written
    exact (flush_written _ _ e).mp (written.resolve_left nofun)
  refine { inv with
    ordered := ?_
    covered := ?_
    root := ?_ }
  · refine ⟨inv.ordered.data, ?_⟩
    intro hash callback reached stored link mem
    have written := (flush_written _ _ _).mp stored
    exact (flush_written _ _ _).mpr (inv.ordered.below unshared reached written link mem)
  · intro hash pending shut counting link mem
    exact (inv.covered hash pending shut counting link mem).imp_left (present _).mpr
  · exact inv.root.imp_right fun known => known.imp_right (present _).mpr

/-! Runs. -/

/-- Data are delivered under their hash; they may be unrequested or duplicates. -/
def Sync.Call.Genuine (σ : Source K) : Call → Prop
  | .process hash data => σ.blob hash = some data
  | _ => True

/-- Every call with genuine data keeps the invariant, but for keys of odd length. -/
theorem call_ok (unshared : σ.Unshared) (inv : Invariant σ [] none s) {call : Call}
    (genuine : call.Genuine σ)
    : s.call call = .error .oddHexKey
      ∨ ∃ s', s.call call = .ok s' ∧ Invariant σ [] none s' := by
  cases call with
  | missing max =>
    rcases missingLoop_same max s.queue.length s {} with odd | ⟨s', tasks, done, same⟩
    · left
      rw [call, missing, odd]
      rfl
    · right
      refine ⟨s', ?_, same.invariant inv⟩
      rw [call, missing, done]
      rfl
  | process hash data =>
    rcases process_ok inv genuine with odd | ⟨s', err, done, invAfter⟩
    · left
      rw [call, odd]
      rfl
    · right
      refine ⟨s', ?_, invAfter⟩
      rw [call, done]
      rfl
  | commit => exact .inr ⟨s.flush, rfl, flush_ok unshared inv⟩
  | filter contains =>
    have same : SameRequests s { s with bloom := s.bloom.map fun _ => contains } :=
      ⟨rfl, rfl, rfl, rfl⟩
    exact .inr ⟨_, rfl, same.invariant inv⟩

/-- So does every list of calls, by induction on the list. -/
theorem run_ok (unshared : σ.Unshared) (inv : Invariant σ [] none s) {calls : List Call}
    (genuine : ∀ call ∈ calls, call.Genuine σ)
    : s.run calls = .error .oddHexKey
      ∨ ∃ s', s.run calls = .ok s' ∧ Invariant σ [] none s' := by
  induction calls generalizing s with
  | nil => exact .inr ⟨s, rfl, inv⟩
  | cons call calls ih =>
    rw [run, List.foldlM_cons]
    rcases call_ok unshared inv (genuine call List.mem_cons_self)
      with odd | ⟨middle, done, invMiddle⟩
    · left
      rw [odd]
      rfl
    · rw [done]
      exact ih invMiddle fun other mem => genuine other (.tail _ mem)

variable (closed : Closed σ database) (bloom : Option (Hash → Bool))
include closed

/-- A root that is known needs no request. -/
theorem Invariant.start (known : σ.root = emptyRoot ∨ (database (.node σ.root)).isSome)
    : Invariant σ [] none { database := database, bloom := bloom } :=
  {
    ordered := closed
    parents := nofun
    owing := nofun
    deps := nofun
    fresh := nofun
    data := nofun
    reached := nofun
    covered := nofun
    root := known.imp_right fun stored => .inr (.inr stored)
  }

/-- Any other root is the first request. -/
theorem Invariant.first (full : σ.root ≠ emptyRoot)
    : Invariant σ [] none
        (({ database := database, bloom := bloom } : Sync K.Callback).schedule (.node σ.root)
          { path := [], callback := σ.callback }) := by
  generalize scheduled : ({ database := database, bloom := bloom } : Sync K.Callback).schedule
    (.node σ.root) { path := [], callback := σ.callback } = s
  have reqs : s.reqs = {.node σ.root} := by
    rw [← scheduled, schedule_reqs]
    rfl
  have request : s.request (.node σ.root) = { path := [], callback := σ.callback } := by
    rw [← scheduled]
    exact schedule_request_new nofun
  have stored : s.database = database ∧ s.membatch = [] := by
    rw [← scheduled]
    exact schedule_database _ _
  have alone {e : Entry} (mem : e ∈ s.reqs) : e = .node σ.root := by
    rw [reqs] at mem
    exact Finset.mem_singleton.mp mem
  refine
    {
      ordered := ?_
      parents := ?_
      owing := nofun
      deps := ?_
      fresh := ?_
      data := ?_
      reached := ?_
      covered := ?_
      root := .inr (.inl (reqs ▸ Finset.mem_singleton_self _))
    }
  · rw [stored.1, stored.2]
    exact closed
  · intro e mem parent above
    rw [alone mem, request] at above
    cases above
  · intro hash mem
    rw [alone mem, request, outstanding, reqs, Finset.sum_singleton, request]
    rfl
  · intro hash mem _
    rw [alone mem, request]
  · intro e mem data received
    rw [alone mem, request] at received
    cases received
  · intro hash mem
    rw [alone mem, request, Entry.node.inj (alone mem)]
    exact ⟨full, .refl⟩
  · intro hash mem _ counting
    rw [alone mem, request] at counting
    exact absurd rfl counting

/-- A new sync satisfies the invariant. -/
theorem new_ok : ∃ s, new σ.root database σ.callback bloom = .ok s ∧ Invariant σ [] none s := by
  unfold new addSubTrie enter
  split
  · rename_i empty
    exact ⟨_, rfl, .start closed bloom (.inl empty)⟩
  · rename_i full
    split
    · rename_i has
      have stored := (present_of_has has).resolve_left nofun
      exact ⟨_, rfl, .start closed bloom (.inr stored)⟩
    · exact ⟨_, if_pos rfl, .first closed bloom full⟩

omit closed

/-- All that a node refers to is written before it. -/
theorem Ordered.transGen (unshared : σ.Unshared)
    {older : List (Entry × Bytes)} (ordered : Ordered σ database older)
    {above below : Link K.Callback} (reached : σ.Reached above)
    (direct : ∀ link ∈ σ.links above, Written database older link.entry)
    (path : Relation.TransGen σ.Refers above below)
    : Written database older below.entry := by
  induction path with
  | single refers => exact direct _ refers
  | @tail middle below path refers ih =>
    cases middle with
    | code hash => cases refers
    | subTrie hash callback =>
      have reachedMiddle : σ.Reached (.subTrie hash callback) :=
        ⟨reached.1, reached.2.trans path.to_reflTransGen⟩
      exact ordered.below unshared reachedMiddle ih below refers

theorem Ordered.suffix {newer older : List (Entry × Bytes)}
    (ordered : Ordered σ database (newer ++ older))
    : Ordered σ database older := by
  induction newer with
  | nil => exact ordered
  | cons write newer ih => exact ih ordered.1

end GoBinacoin.TrieSync
