import GoBinacoin.TxPool.ReorgLoop

/-! Every request for maintenance is covered by a run of its own round. -/

namespace GoBinacoin.TxPool

open State

variable {Tx : Type} {reader : TxReader Tx} {s s' : State Tx}

/-- What was received for each run, and for the next one. -/
def State.batches (s : State Tx) : List (List (Item Tx)) := s.runs.map Run.batch ++ [s.batch]

def Asks (batch : List (Item Tx)) (client : Nat) : Prop := ∃ req, .request client req ∈ batch

/-! The invariant. -/

/-- What holds in every state of the loop and its goroutines. -/
structure Invariant (reader : TxReader Tx) (s : State Tx) : Prop where
  channels : s.nextDone = s.runs.length
  dones : ∀ (k : Nat) (run : Run Tx), s.runs[k]? = some run → run.done = k
  args : s.args = s.batch.foldl (Args.add reader) {}
  runArgs : ∀ run ∈ s.runs, run.args = run.batch.foldl (Args.add reader) {}
  active : ∀ done ∈ s.active, s.curDone = some done
  single : s.active.Nodup
  current : ∀ done, s.curDone = some done →
    done < s.nextDone ∧ (done ∈ s.active ∨ done ∈ s.closed)
  pending : s.launchNextRun = true ↔ ∃ client, Asks s.batch client
  waiting : ∀ client, s.clients client = .waiting → s.phase = .reply ∧ Asks s.batch client
    ∧ ∀ other, s.clients other = .waiting → other = client
  holds : ∀ client done, s.clients client = .holds done →
    ∃ batch, s.batches[done]? = some batch ∧ Asks batch client
  known : ∀ client done batch, s.batches[done]? = some batch → Asks batch client →
    s.clients client = .holds done ∨ s.clients client = .waiting ∧ done = s.nextDone
  closed : ∀ done ∈ s.closed,
    done < s.nextDone ∧ done ∉ s.active ∨ s.phase = .stopped ∧ done = s.nextDone

/-- At its `select` the loop has no request that waits unless a run is active. -/
def Settled (s : State Tx) : Prop :=
  s.phase ≠ .reply → s.launchNextRun = true → s.curDone ≠ none

/-- Nothing has happened at the start. -/
theorem Invariant.initial : Invariant reader ({} : State Tx) :=
  {
    channels := rfl
    dones := fun _ _ found => by cases found
    args := rfl
    runArgs := fun _ mem => by cases mem
    active := fun _ mem => by cases mem
    single := List.nodup_nil
    current := fun _ found => by cases found
    pending := ⟨nofun, fun ⟨_, _, mem⟩ => (nomatch mem)⟩
    waiting := fun _ waits => by cases waits
    holds := fun _ _ holds => by cases holds
    known := fun client done batch found ⟨req, mem⟩ => by
      rcases done with _ | done
      · cases found
        cases mem
      · cases found
    closed := fun _ mem => by cases mem
  }

theorem State.batches_launch (s : State Tx) (launches : s.curDone = none ∧ s.launchNextRun)
    : s.launch.batches = s.batches ++ [[]] := by
  rw [launch, if_pos launches, batches, batches]
  simp

theorem State.batches_length (s : State Tx) : s.batches.length = s.runs.length + 1 := by
  simp [batches]

/-- Launching the next run keeps the invariant and settles the loop. -/
theorem Invariant.launch (inv : Invariant reader s) (selecting : s.phase = .select)
    : Invariant reader s.launch ∧ Settled s.launch := by
  by_cases launches : s.curDone = none ∧ s.launchNextRun
  · have none_active : s.active = [] := by
      refine List.eq_nil_iff_forall_not_mem.mpr fun done mem => ?_
      have current := inv.active done mem
      rw [launches.1] at current
      cases current
    have none_waiting client : s.clients client ≠ .waiting := by
      intro waits
      have replying := (inv.waiting client waits).1
      rw [selecting] at replying
      cases replying
    have batches := s.batches_launch launches
    have length := s.batches_length
    rw [State.launch, if_pos launches] at batches ⊢
    refine ⟨⟨?_, ?_, rfl, ?_, ?_, ?_, ?_, ?_, ?_, ?_, ?_, ?_⟩, nofun⟩
    · rw [List.length_append, ← inv.channels]
      rfl
    · intro k run found
      dsimp only at found
      rcases Nat.lt_trichotomy k s.runs.length with below | same | beyond
      · rw [List.getElem?_append_left below] at found
        exact inv.dones k run found
      · rw [same, List.getElem?_concat_length] at found
        cases found
        rw [same]
        exact inv.channels
      · rw [List.getElem?_eq_none (by rw [List.length_append]; exact beyond)] at found
        cases found
    · intro run mem
      rcases List.mem_append.mp mem with old | new
      · exact inv.runArgs run old
      · rw [List.mem_singleton.mp new]
        exact inv.args
    · intro done mem
      dsimp only at mem
      rw [none_active, List.mem_singleton] at mem
      rw [mem]
    · dsimp only
      rw [none_active]
      exact List.nodup_singleton _
    · intro done found
      cases found
      exact ⟨Nat.lt_succ_self _, .inl List.mem_cons_self⟩
    · exact ⟨nofun, fun ⟨_, _, mem⟩ => (nomatch mem)⟩
    · intro client waits
      exact absurd waits (none_waiting client)
    · intro client done holds
      obtain ⟨batch, found, asks⟩ := inv.holds client done holds
      refine ⟨batch, ?_, asks⟩
      rw [batches, List.getElem?_append_left (List.getElem?_eq_some_iff.mp found).1]
      exact found
    · intro client done batch found asks
      rw [batches] at found
      by_cases below : done < s.batches.length
      · rw [List.getElem?_append_left below] at found
        refine .inl ?_
        rcases inv.known client done batch found asks with holds | ⟨waits, -⟩
        · exact holds
        · exact absurd waits (none_waiting client)
      · rw [List.getElem?_append_right (Nat.not_lt.mp below)] at found
        obtain ⟨req, mem⟩ := asks
        rcases index : done - s.batches.length with _ | rest
        · rw [index] at found
          cases found
          cases mem
        · rw [index] at found
          cases found
    · intro done mem
      refine .inl ?_
      rcases inv.closed done mem with ⟨below, -⟩ | ⟨stopped, -⟩
      · dsimp only
        rw [none_active, List.mem_singleton]
        omega
      · rw [selecting] at stopped
        cases stopped
  · rw [State.launch, if_neg launches]
    exact ⟨inv, fun _ asked idle => launches ⟨idle, asked⟩⟩

variable {batch : List (Item Tx)}

/-- The batches are those of the runs and the one that is collected. -/
theorem State.batches_get {done : Nat}
    : s.batches[done]? = some batch
      ↔ (∃ run, s.runs[done]? = some run ∧ run.batch = batch)
        ∨ done = s.runs.length ∧ batch = s.batch := by
  rw [batches]
  rcases Nat.lt_trichotomy done s.runs.length with below | rfl | beyond
  · rw [List.getElem?_append_left (by rwa [List.length_map]), List.getElem?_map,
      Option.map_eq_some_iff]
    exact ⟨.inl, fun either => either.resolve_right fun last => below.ne last.1⟩
  · rw [← List.length_map Run.batch, List.getElem?_concat_length, List.length_map]
    constructor
    · intro same
      cases same
      exact .inr ⟨rfl, rfl⟩
    · rintro (⟨run, found, -⟩ | ⟨-, rfl⟩)
      · rw [List.getElem?_eq_none (le_refl _)] at found
        cases found
      · rfl
  · rw [List.getElem?_eq_none (by rw [List.length_append, List.length_map]; exact beyond)]
    constructor
    · intro found
      cases found
    · rintro (⟨run, found, -⟩ | ⟨same, -⟩)
      · rw [List.getElem?_eq_none beyond.le] at found
        cases found
      · exact absurd same beyond.ne'

/-- A request asks for its client. -/
theorem asks_append_request {client asking : Nat} {req : Request}
    : Asks (batch ++ [.request asking req]) client ↔ Asks batch client ∨ client = asking := by
  constructor
  · rintro ⟨found, mem⟩
    rcases List.mem_append.mp mem with old | new
    · exact .inl ⟨found, old⟩
    · cases List.mem_singleton.mp new
      exact .inr rfl
  · rintro (⟨found, mem⟩ | rfl)
    · exact ⟨found, List.mem_append_left _ mem⟩
    · exact ⟨req, List.mem_append_right _ (List.mem_singleton_self _)⟩

theorem asks_append_event {client : Nat} {tx : Tx}
    : Asks (batch ++ [.event tx]) client ↔ Asks batch client := by
  constructor
  · rintro ⟨found, mem⟩
    rcases List.mem_append.mp mem with old | new
    · exact ⟨found, old⟩
    · cases List.mem_singleton.mp new
  · rintro ⟨found, mem⟩
    exact ⟨found, List.mem_append_left _ mem⟩

section

variable (inv : Invariant reader s)

include inv

theorem State.take_args (item : Item Tx)
    : (s.take reader item).args = (s.take reader item).batch.foldl (Args.add reader) {} := by
  rw [take, List.foldl_append, ← inv.args]
  rfl

namespace Invariant

/-- An event joins the batch. -/
theorem event (tx : Tx) : Invariant reader (s.take reader (.event tx)) := by
  refine ⟨inv.channels, inv.dones, take_args inv _, inv.runArgs, inv.active, inv.single,
    inv.current, ?_, ?_, ?_, ?_, inv.closed⟩
  · refine inv.pending.trans (exists_congr fun client => ?_)
    exact asks_append_event.symm
  · intro client waits
    obtain ⟨replying, asks, only⟩ := inv.waiting client waits
    exact ⟨replying, asks_append_event.mpr asks, only⟩
  · intro client done holds
    obtain ⟨batch, found, asks⟩ := inv.holds client done holds
    rcases batches_get.mp found with old | ⟨rfl, rfl⟩
    · exact ⟨batch, batches_get.mpr (.inl old), asks⟩
    · exact ⟨_, batches_get.mpr (.inr ⟨rfl, rfl⟩), asks_append_event.mpr asks⟩
  · intro client done batch found asks
    rcases batches_get.mp found with old | ⟨rfl, rfl⟩
    · exact inv.known client done batch (batches_get.mpr (.inl old)) asks
    · exact inv.known client _ s.batch (batches_get.mpr (.inr ⟨rfl, rfl⟩))
        (asks_append_event.mp asks)

/-- A request is received; its client waits for the reply, and nobody else does. -/
theorem receive (selecting : s.phase = .select) {client : Nat}
    (idle : s.clients client = .idle) (req : Request)
    : Invariant reader
        { s.take reader (.request client req) with
          phase := .reply
          launchNextRun := true
          clients := Function.update s.clients client .waiting } := by
  have none_waiting other : s.clients other ≠ .waiting := by
    intro waits
    have replying := (inv.waiting other waits).1
    rw [selecting] at replying
    cases replying
  refine ⟨inv.channels, inv.dones, take_args inv _, inv.runArgs, inv.active, inv.single,
    inv.current, ?_, ?_, ?_, ?_, ?_⟩
  · exact iff_of_true rfl ⟨client, asks_append_request.mpr (.inr rfl)⟩
  · have only other (waits : Function.update s.clients client .waiting other = .waiting)
        : other = client := by
      by_contra apart
      rw [Function.update_of_ne apart] at waits
      exact none_waiting other waits
    intro one waits
    refine ⟨rfl, asks_append_request.mpr (.inr (only one waits)), fun other waits' => ?_⟩
    rw [only one waits, only other waits']
  · intro other done holds
    dsimp only at holds
    have apart : other ≠ client := by
      rintro rfl
      rw [Function.update_self] at holds
      cases holds
    rw [Function.update_of_ne apart] at holds
    obtain ⟨batch, found, asks⟩ := inv.holds other done holds
    rcases batches_get.mp found with old | ⟨rfl, rfl⟩
    · exact ⟨batch, batches_get.mpr (.inl old), asks⟩
    · exact ⟨_, batches_get.mpr (.inr ⟨rfl, rfl⟩), asks_append_request.mpr (.inl asks)⟩
  · -- the client has not asked before
    have fresh {done : Nat} {batch : List (Item Tx)} (found : s.batches[done]? = some batch)
        (asks : Asks batch client) : False := by
      rcases inv.known client done batch found asks with holds | ⟨waits, -⟩
      · rw [idle] at holds
        cases holds
      · exact none_waiting client waits
    have before {other done : Nat} {batch : List (Item Tx)} (found : s.batches[done]? = some batch)
        (asks : Asks batch other)
        : Function.update s.clients client .waiting other = .holds done := by
      have apart : other ≠ client := by
        rintro rfl
        exact fresh found asks
      rw [Function.update_of_ne apart]
      exact (inv.known other done batch found asks).resolve_right fun waits =>
        none_waiting other waits.1
    intro other done batch found asks
    rcases batches_get.mp found with old | ⟨rfl, rfl⟩
    · exact .inl (before (batches_get.mpr (.inl old)) asks)
    · rcases asks_append_request.mp asks with asks | rfl
      · exact .inl (before (batches_get.mpr (.inr ⟨rfl, rfl⟩)) asks)
      · exact .inr ⟨Function.update_self .., inv.channels.symm⟩
  · intro done mem
    rcases inv.closed done mem with below | ⟨stopped, -⟩
    · exact .inl below
    · rw [selecting] at stopped
      cases stopped

/-- The client is told the channel of its batch. -/
theorem reply {client : Nat} (waits : s.clients client = .waiting)
    : Invariant reader
        { s with
          phase := .select
          clients := Function.update s.clients client (.holds s.nextDone) } := by
  obtain ⟨replying, asked, only⟩ := inv.waiting client waits
  refine ⟨inv.channels, inv.dones, inv.args, inv.runArgs, inv.active, inv.single, inv.current,
    inv.pending, ?_, ?_, ?_, ?_⟩
  · intro other waits'
    dsimp only at waits'
    by_cases same : other = client
    · subst same
      rw [Function.update_self] at waits'
      cases waits'
    · rw [Function.update_of_ne same] at waits'
      exact absurd (only other waits') same
  · intro other done holds
    dsimp only at holds
    by_cases same : other = client
    · subst same
      rw [Function.update_self] at holds
      cases holds
      exact ⟨s.batch, batches_get.mpr (.inr ⟨inv.channels, rfl⟩), asked⟩
    · rw [Function.update_of_ne same] at holds
      exact inv.holds other done holds
  · intro other done batch found asks
    refine .inl ?_
    dsimp only
    by_cases same : other = client
    · subst same
      rw [Function.update_self]
      rcases inv.known other done batch found asks with holds | ⟨-, rfl⟩
      · rw [waits] at holds
        cases holds
      · rfl
    · rw [Function.update_of_ne same]
      exact (inv.known other done batch found asks).resolve_right fun waits' =>
        same (only other waits'.1)
  · intro done mem
    rcases inv.closed done mem with below | ⟨stopped, -⟩
    · exact .inl below
    · rw [replying] at stopped
      cases stopped

/-- A run closes its channel. -/
theorem finish {done : Nat} (mem : done ∈ s.active)
    : Invariant reader
        { s with active := s.active.erase done, closed := insert done s.closed } := by
  refine ⟨inv.channels, inv.dones, inv.args, inv.runArgs, ?_, inv.single.erase done, ?_,
    inv.pending, inv.waiting, inv.holds, inv.known, ?_⟩
  · exact fun other inside => inv.active other (List.mem_of_mem_erase inside)
  · intro other found
    obtain ⟨below, runs | returned⟩ := inv.current other found
    · have same : other = done := Option.some.inj (found.symm.trans (inv.active done mem))
      exact ⟨below, .inr (same ▸ Finset.mem_insert_self _ _)⟩
    · exact ⟨below, .inr (Finset.mem_insert_of_mem returned)⟩
  · intro other inside
    rcases Finset.mem_insert.mp inside with rfl | inside
    · exact .inl ⟨(inv.current other (inv.active other mem)).1, inv.single.not_mem_erase⟩
    · exact (inv.closed other inside).imp_left fun ⟨below, gone⟩ =>
        ⟨below, fun stays => gone (List.mem_of_mem_erase stays)⟩

/-- The loop notes that the run has ended. -/
theorem done (selecting : s.phase = .select) (closed : s.curDone.any (· ∈ s.closed))
    : Invariant reader { s with curDone := none } := by
  have returned : s.active = [] := by
    refine List.eq_nil_iff_forall_not_mem.mpr fun done mem => ?_
    rw [inv.active done mem, Option.any_some, decide_eq_true_eq] at closed
    rcases inv.closed done closed with ⟨-, gone⟩ | ⟨stopped, -⟩
    · exact gone mem
    · rw [selecting] at stopped
      cases stopped
  refine ⟨inv.channels, inv.dones, inv.args, inv.runArgs, ?_, inv.single, ?_, inv.pending,
    inv.waiting, inv.holds, inv.known, inv.closed⟩
  · intro done mem
    dsimp only at mem
    rw [returned] at mem
    cases mem
  · intro done found
    cases found

/-- The loop is told to stop. -/
theorem shutdown (selecting : s.phase = .select)
    : Invariant reader { s with phase := .stopping } := by
  refine ⟨inv.channels, inv.dones, inv.args, inv.runArgs, inv.active, inv.single, inv.current,
    inv.pending, ?_, inv.holds, inv.known, ?_⟩
  · intro client waits
    have replying := (inv.waiting client waits).1
    rw [selecting] at replying
    cases replying
  · intro done mem
    refine .inl ((inv.closed done mem).resolve_right fun ⟨stopped, _⟩ => ?_)
    rw [selecting] at stopped
    cases stopped

/-- The last channel is closed when the loop stops. -/
theorem stop (stopping : s.phase = .stopping)
    : Invariant reader { s with phase := .stopped, closed := insert s.nextDone s.closed } := by
  refine ⟨inv.channels, inv.dones, inv.args, inv.runArgs, inv.active, inv.single, ?_,
    inv.pending, ?_, inv.holds, inv.known, ?_⟩
  · intro done found
    exact (inv.current done found).imp_right (Or.imp_right Finset.mem_insert_of_mem)
  · intro client waits
    have replying := (inv.waiting client waits).1
    rw [stopping] at replying
    cases replying
  · intro done mem
    rcases Finset.mem_insert.mp mem with rfl | mem
    · exact .inr ⟨rfl, rfl⟩
    · refine .inl ((inv.closed done mem).resolve_right fun ⟨stopped, _⟩ => ?_)
      rw [stopping] at stopped
      cases stopped

end Invariant

omit inv in
theorem State.launch_batches (s : State Tx) : s.launch.batches.flatten = s.batches.flatten := by
  by_cases launches : s.curDone = none ∧ s.launchNextRun
  · rw [s.batches_launch launches, List.flatten_append]
    simp
  · rw [launch, if_neg launches]

omit inv in
theorem State.take_batches (reader : TxReader Tx) (s : State Tx) (item : Item Tx)
    : (s.take reader item).batches.flatten = s.batches.flatten ++ [item] := by
  simp [take, batches]

/-- A step keeps the invariant and receives at most the item of its label. -/
theorem Invariant.step (settled : Settled s) {label : Label Tx}
    (run : s.step reader label = some s')
    : (Invariant reader s' ∧ Settled s')
      ∧ s'.batches.flatten = s.batches.flatten ++ label.item.toList := by
  have unchanged := (List.append_nil s.batches.flatten).symm
  cases label with
  | receive client req =>
    obtain ⟨enabled, ⟨⟩⟩ := Option.ite_none_right_eq_some.mp run
    exact ⟨⟨inv.receive enabled.1 enabled.2 req, fun notReply => absurd rfl notReply⟩,
      s.take_batches reader _⟩
  | reply client =>
    obtain ⟨enabled, ⟨⟩⟩ := Option.ite_none_right_eq_some.mp run
    exact ⟨(inv.reply enabled.2).launch rfl, (launch_batches _).trans unchanged⟩
  | event tx =>
    obtain ⟨selecting, ⟨⟩⟩ := Option.ite_none_right_eq_some.mp run
    exact ⟨(inv.event tx).launch selecting, (launch_batches _).trans (s.take_batches reader _)⟩
  | finish done =>
    obtain ⟨mem, ⟨⟩⟩ := Option.ite_none_right_eq_some.mp run
    exact ⟨⟨inv.finish mem, settled⟩, unchanged⟩
  | done =>
    obtain ⟨enabled, ⟨⟩⟩ := Option.ite_none_right_eq_some.mp run
    exact ⟨(inv.done enabled.1 enabled.2).launch enabled.1, (launch_batches _).trans unchanged⟩
  | shutdown =>
    obtain ⟨selecting, ⟨⟩⟩ := Option.ite_none_right_eq_some.mp run
    refine ⟨⟨inv.shutdown selecting, fun _ => settled ?_⟩, unchanged⟩
    rw [selecting]
    decide
  | stop =>
    obtain ⟨enabled, ⟨⟩⟩ := Option.ite_none_right_eq_some.mp run
    refine ⟨⟨inv.stop enabled.1, fun _ => settled ?_⟩, unchanged⟩
    rw [enabled.1]
    decide

/-- The invariant over a whole run, by induction on the labels. -/
theorem Invariant.steps (settled : Settled s) {labels : List (Label Tx)}
    (run : labels.foldlM (State.step reader) s = some s')
    : (Invariant reader s' ∧ Settled s')
      ∧ s'.batches.flatten = s.batches.flatten ++ labels.filterMap Label.item := by
  induction labels generalizing s with
  | nil =>
    cases run
    exact ⟨⟨inv, settled⟩, (List.append_nil _).symm⟩
  | cons label rest ih =>
    obtain ⟨next, first, others⟩ := Option.bind_eq_some_iff.mp run
    obtain ⟨⟨inv, settled⟩, received⟩ := inv.step settled first
    obtain ⟨kept, all⟩ := ih inv settled others
    refine ⟨kept, all.trans ?_⟩
    rw [received, List.append_assoc]
    cases item : label.item with
    | none => rw [List.filterMap_cons_none item]; rfl
    | some taken => rw [List.filterMap_cons_some item]; rfl

end

def resets (batch : List (Item Tx)) : List ResetRequest :=
  batch.filterMap fun
    | .request _ (.reset req) => some req
    | _ => none

def promotes (batch : List (Item Tx)) : List (Finset Address) :=
  batch.filterMap fun
    | .request _ (.promote req) => some req
    | _ => none

/-- The events of an account and a nonce. -/
def eventsOf (reader : TxReader Tx) (addr : Address) (nonce : UInt64) (batch : List (Item Tx))
    : List Tx :=
  batch.filterMap fun
    | .event tx => if reader.sender tx = addr ∧ reader.nonce tx = nonce then some tx else none
    | _ => none

/-- The arguments of a run cover what was received for it: all resets from the oldest head to the
newest, all accounts, and of the events of an account and a nonce the last one.
-/
structure Covers (reader : TxReader Tx) (batch : List (Item Tx)) (args : Args Tx) : Prop where
  reset : args.reset = (resets batch).head?.bind fun first =>
    (resets batch).getLast?.map fun last => ⟨first.oldHead, last.newHead⟩
  promote : args.dirtyAccounts
    = if promotes batch = [] then none else some ((promotes batch).foldl (· ∪ ·) ∅)
  events : ∀ addr nonce, (args.queuedEvents addr).bind (· nonce)
    = (eventsOf reader addr nonce batch).getLast?

section Covers

variable {args : Args Tx}

section

variable (covers : Covers reader batch args)

include covers

/-- Resets merge from the first old head to the last new one. -/
theorem Covers.addReset (client : Nat) (req : ResetRequest)
    : Covers reader (batch ++ [.request client (.reset req)]) (args.addReset req) := by
  have appended : resets (batch ++ [.request client (.reset req)]) = resets batch ++ [req] := by
    simp [resets]
  have promotes_same : promotes (batch ++ [.request client (.reset req)]) = promotes batch := by
    simp [promotes]
  have events_same addr nonce : eventsOf reader addr nonce (batch ++ [.request client (.reset req)])
      = eventsOf reader addr nonce batch := by
    simp [eventsOf]
  have reset := covers.reset
  rw [Args.addReset]
  rcases list : resets batch with _ | ⟨first, rest⟩
  · rw [list] at reset appended
    rw [show args.reset = none from reset]
    refine ⟨?_, by rw [promotes_same]; exact covers.promote,
      fun addr nonce => by rw [events_same]; exact covers.events addr nonce⟩
    rw [appended]
    rfl
  · rw [list] at reset appended
    rw [List.head?_cons, Option.bind_some, List.getLast?_cons, Option.map_some] at reset
    rw [reset]
    refine ⟨?_, by rw [promotes_same]; exact covers.promote,
      fun addr nonce => by rw [events_same]; exact covers.events addr nonce⟩
    rw [appended, List.cons_append, List.head?_cons, Option.bind_some, ← List.cons_append,
      List.getLast?_concat]
    rfl

/-- Promoted accounts are covered by their union. -/
theorem Covers.addPromote (client : Nat) (req : Finset Address)
    : Covers reader (batch ++ [.request client (.promote req)]) (args.addPromote req) := by
  have appended : promotes (batch ++ [.request client (.promote req)])
      = promotes batch ++ [req] := by
    simp [promotes]
  have resets_same : resets (batch ++ [.request client (.promote req)]) = resets batch := by
    simp [resets]
  have events_same addr nonce
      : eventsOf reader addr nonce (batch ++ [.request client (.promote req)])
        = eventsOf reader addr nonce batch := by
    simp [eventsOf]
  have promote := covers.promote
  rw [Args.addPromote]
  rcases list : promotes batch with _ | ⟨first, rest⟩
  · rw [list, if_pos rfl] at promote
    rw [promote]
    refine ⟨by rw [resets_same]; exact covers.reset, ?_,
      fun addr nonce => by rw [events_same]; exact covers.events addr nonce⟩
    rw [appended, list]
    simp
  · rw [list, if_neg (List.cons_ne_nil _ _)] at promote
    rw [promote]
    refine ⟨by rw [resets_same]; exact covers.reset, ?_,
      fun addr nonce => by rw [events_same]; exact covers.events addr nonce⟩
    rw [appended, list, if_neg (List.append_ne_nil_of_right_ne_nil _ (List.cons_ne_nil _ _)),
      List.foldl_append]
    rfl

/-- The last event of each sender and nonce is kept. -/
theorem Covers.addEvent (tx : Tx)
    : Covers reader (batch ++ [.event tx]) (args.addEvent reader tx) := by
  have resets_same : resets (batch ++ [.event tx]) = resets batch := by
    simp [resets]
  have promotes_same : promotes (batch ++ [.event tx]) = promotes batch := by
    simp [promotes]
  refine ⟨by rw [resets_same]; exact covers.reset, by rw [promotes_same]; exact covers.promote, ?_⟩
  intro addr nonce
  have before := covers.events addr nonce
  have appended : eventsOf reader addr nonce (batch ++ [.event tx])
      = eventsOf reader addr nonce batch
        ++ if reader.sender tx = addr ∧ reader.nonce tx = nonce then [tx] else [] := by
    rw [eventsOf, List.filterMap_append, ← eventsOf]
    congr 1
    split <;> simp [*]
  rw [appended, Args.addEvent]
  dsimp only
  rw [GoMap.set_apply]
  by_cases sameSender : reader.sender tx = addr
  · subst sameSender
    rw [if_pos rfl, Option.bind_some, GoMap.set_apply]
    by_cases sameNonce : reader.nonce tx = nonce
    · rw [if_pos sameNonce.symm, if_pos ⟨rfl, sameNonce⟩, List.getLast?_concat]
    · rw [if_neg (Ne.symm sameNonce), if_neg fun both => sameNonce both.2, List.append_nil,
        ← before]
      cases args.queuedEvents (reader.sender tx) <;> rfl
  · rw [if_neg (Ne.symm sameSender), if_neg fun both => sameSender both.1, List.append_nil, before]

theorem Covers.add (item : Item Tx) : Covers reader (batch ++ [item]) (args.add reader item) := by
  rcases item with ⟨client, req | req⟩ | tx
  · exact covers.addReset client req
  · exact covers.addPromote client req
  · exact covers.addEvent tx

omit covers in
/-- Each set is part of the union. -/
theorem subset_union_foldl {accounts : Finset Address} {list : List (Finset Address)}
    (mem : accounts ∈ list) (start : Finset Address)
    : accounts ⊆ list.foldl (· ∪ ·) start := by
  have grows (list : List (Finset Address)) (start : Finset Address)
      : start ⊆ list.foldl (· ∪ ·) start := by
    induction list generalizing start with
    | nil => exact Finset.Subset.refl _
    | cons first rest ih => exact Finset.subset_union_left.trans (ih _)
  induction list generalizing start with
  | nil => cases mem
  | cons first rest ih =>
    rcases List.mem_cons.mp mem with rfl | mem
    · exact Finset.subset_union_right.trans (grows rest _)
    · exact ih mem _

/-- The accounts of a request with queued transactions are among those that the run promotes. -/
theorem Covers.promotes {accounts : Finset Address}
    (asked : accounts ∈ promotes batch) (queue : Finset Address)
    : accounts ∩ queue ⊆ args.promoteAddrs queue := by
  rw [Args.promoteAddrs]
  split
  · exact Finset.inter_subset_right
  · rw [covers.promote, if_neg (List.ne_nil_of_mem asked), Option.getD_some]
    exact Finset.inter_subset_left.trans (subset_union_foldl asked ∅)

end

end Covers

/-- Transactions of one account. -/
def sampleReader : TxReader Nat where
  sender _ := 1
  nonce tx := UInt64.ofNat (tx / 10)

end GoBinacoin.TxPool
