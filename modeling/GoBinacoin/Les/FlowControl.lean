import GoBinacoin.Common.Types

/-! Flow control on the server's side. Lower parameters for a client take force with a delay, and
calls that follow meanwhile change the schedule of such updates.
-/

namespace GoBinacoin.FlowControl

/-- Nanoseconds of a monotonic clock. -/
abbrev AbsTime := Int64

def fcTimeConst : Nat := 1000000

def decParamDelay : AbsTime := 2000000000

structure ServerParams where
  bufLimit : UInt64
  minRecharge : UInt64
deriving DecidableEq

structure ScheduledUpdate where
  time : AbsTime
  params : ServerParams

structure ClientNode where
  params : ServerParams
  bufValue : Int64
  lastTime : AbsTime
  updateSchedule : List ScheduledUpdate := []

def newClientNode (params : ServerParams) (now : AbsTime) : ClientNode :=
  { params, bufValue := params.bufLimit.toInt64, lastTime := now }

namespace ClientNode

def recalcBV (node : ClientNode) (now : AbsTime) : ClientNode :=
  let dt := if now < node.lastTime then 0 else (now - node.lastTime).toUInt64
  let bufValue := node.bufValue
    + (node.params.minRecharge * dt / UInt64.ofNat fcTimeConst).toInt64
  let limit := node.params.bufLimit.toInt64
  { node with bufValue := if bufValue > limit then limit else bufValue, lastTime := now }

/-- What the client manager computes from the parameters is not kept with the node. -/
def updateParams (node : ClientNode) (params : ServerParams) : ClientNode :=
  let diff := (params.bufLimit - node.params.bufLimit).toInt64
  let limit := params.bufLimit.toInt64
  let bufValue :=
    if diff > 0 then node.bufValue + diff
    else if node.bufValue > limit then limit
    else node.bufValue
  { node with params, bufValue }

/-- The loop of `update`, over the schedule. -/
def runSchedule (now : AbsTime) : List ScheduledUpdate → ClientNode → ClientNode
  | [], node => { node with updateSchedule := [] }
  | s :: rest, node =>
      if s.time ≤ now then runSchedule now rest ((node.recalcBV s.time).updateParams s.params)
      else { node with updateSchedule := s :: rest }

def update (node : ClientNode) (now : AbsTime) : ClientNode :=
  (node.runSchedule now node.updateSchedule).recalcBV now

/-- `UpdateParams`, at the time of the node's clock. -/
def updateParamsAt (node : ClientNode) (now : AbsTime) (params : ServerParams) : ClientNode :=
  let node := node.update now
  if params.minRecharge ≥ node.params.minRecharge then
    { node with updateSchedule := [] }.updateParams params
  else
    match node.updateSchedule.findIdx? (params.minRecharge ≥ ·.params.minRecharge) with
    -- The loop variable is a copy: the parameters that are assigned to it are lost.
    | some i => { node with updateSchedule := node.updateSchedule.take (i + 1) }
    | none =>
        { node with updateSchedule := node.updateSchedule ++ [⟨now + decParamDelay, params⟩] }

/-- The parameters that will be in force in the end. -/
def target (node : ClientNode) : ServerParams :=
  node.updateSchedule.foldl (fun _ s => s.params) node.params

/-- The parameters will not be lost to an update that is scheduled with a lower recharge. -/
def Takes (node : ClientNode) (params : ServerParams) : Prop :=
  node.params.minRecharge ≤ params.minRecharge
  ∨ ∀ s, node.updateSchedule.find? (params.minRecharge ≥ ·.params.minRecharge) = some s
    → s.params = params

variable {node : ClientNode} {now t : AbsTime} {params initial : ServerParams}

/-- `next` is `node` behind the beginning of the schedule that is due. -/
def Took (now : AbsTime) (schedule : List ScheduledUpdate) (node next : ClientNode) : Prop :=
  ∃ due, schedule = due ++ next.updateSchedule ∧ (∀ s ∈ due, s.time ≤ now)
    ∧ (∀ s ∈ next.updateSchedule.head?, now < s.time)
    ∧ next.params = due.foldl (fun _ s => s.params) node.params

/-- Running the schedule takes all that is due. -/
theorem took_runSchedule (now : AbsTime) (schedule : List ScheduledUpdate) (node : ClientNode)
    : Took now schedule node (node.runSchedule now schedule) := by
  induction schedule generalizing node with
  | nil => exact ⟨[], by simp [runSchedule]⟩
  | cons s rest ih =>
    unfold runSchedule
    split
    · rename_i isDue
      obtain ⟨due, all, early, late, inForce⟩ := ih ((node.recalcBV s.time).updateParams s.params)
      exact ⟨s :: due, by simpa using all, by simpa using ⟨isDue, early⟩, late, inForce⟩
    · rename_i notDue
      exact ⟨[], by simp, by simp, by simpa using Int64.not_le.mp notDue, rfl⟩

theorem took_update (node : ClientNode) (now : AbsTime)
    : Took now node.updateSchedule node (node.update now) :=
  took_runSchedule now node.updateSchedule node

theorem target_update (node : ClientNode) (now : AbsTime)
    : (node.update now).target = node.target := by
  obtain ⟨due, all, -, -, inForce⟩ := node.took_update now
  rw [target, target, inForce, all, List.foldl_append]

theorem params_of_due (due : ∀ s ∈ (node.update now).updateSchedule, s.time ≤ now)
    : (node.update now).params = node.target := by
  obtain ⟨-, -, -, late, -⟩ := node.took_update now
  rw [← node.target_update now, target]
  rcases left : (node.update now).updateSchedule with _ | ⟨s, rest⟩
  · rfl
  · rw [left] at due late
    exact absurd (due s List.mem_cons_self) (Int64.not_le.mpr (late s rfl))

/-- The new parameters will be in force exactly if they are not lost. -/
theorem target_updateParamsAt_iff
    : (node.updateParamsAt now params).target = params ↔ (node.update now).Takes params := by
  unfold updateParamsAt
  extract_lets updated
  split
  · rename_i higher
    exact iff_of_true rfl (.inl higher)
  · rename_i lower
    refine Iff.trans ?_ (or_iff_right lower).symm
    rw [show node.update now = updated from rfl]
    rcases found : updated.updateSchedule.findIdx? (params.minRecharge ≥ ·.params.minRecharge)
      with _ | i
    · have none : updated.updateSchedule.find? (params.minRecharge ≥ ·.params.minRecharge) = none :=
        List.find?_eq_none.mpr (by simpa using List.findIdx?_eq_none_iff.mp found)
      simp only [found, none, reduceCtorEq, false_implies, implies_true, iff_true]
      simp [target]
    · obtain ⟨bound, holds, before⟩ := List.findIdx?_eq_some_iff_getElem.mp found
      have first : updated.updateSchedule.find? (params.minRecharge ≥ ·.params.minRecharge)
          = some updated.updateSchedule[i] :=
        List.find?_eq_some_iff_getElem.mpr ⟨holds, i, bound, rfl, fun j less => by
          simpa using before j less⟩
      simp only [found, first, Option.some.injEq, forall_eq']
      rw [target, List.take_succ_eq_append_getElem bound, List.foldl_append]
      rfl

end ClientNode

open ClientNode

/-- Calls of the node at their times: `UpdateParams`, or another one, which updates the node. -/
abbrev Calls := List (AbsTime × Option ServerParams)

def ClientNode.call (node : ClientNode) (c : AbsTime × Option ServerParams) : ClientNode :=
  c.2.elim (node.update c.1) (node.updateParamsAt c.1)

/-- Parameters that a client may be held to: the first ones, and those of calls long ago. -/
def Announced (initial : ServerParams) (calls : Calls) (now : AbsTime) (params : ServerParams)
    : Prop :=
  params = initial
  ∨ ∃ t, (t, some params) ∈ calls ∧ t.toInt + decParamDelay.toInt ≤ now.toInt

/-- What the node has come to by some of the calls. -/
structure Sourced (initial : ServerParams) (calls : Calls) (now : AbsTime) (node : ClientNode)
    : Prop where
  schedule
    : ∀ s ∈ node.updateSchedule, ∃ t, (t, some s.params) ∈ calls ∧ s.time = t + decParamDelay
  inForce
    : ∃ params, Announced initial calls now params
      ∧ params.minRecharge ≤ node.params.minRecharge

variable {initial params : ServerParams} {calls done after : Calls} {node : ClientNode}
  {now later : AbsTime}

theorem toInt_add_delay {t : AbsTime} (clock : t.toInt + decParamDelay.toInt < 2 ^ 63)
    : (t + decParamDelay).toInt = t.toInt + decParamDelay.toInt := by
  have positive : (0 : Int) ≤ decParamDelay.toInt := by decide
  have lowest := t.le_toInt
  rw [Int64.toInt_add]
  exact Int.bmod_eq_of_le (by omega) (by omega)

section Clock

variable (clock : ∀ c ∈ calls, c.1.toInt + decParamDelay.toInt < 2 ^ 63)

include clock

/-- Time goes on. -/
theorem Sourced.update (sourced : Sourced initial calls now node) (le : now ≤ later)
    : Sourced initial calls later (node.update later) := by
  obtain ⟨due, all, early, -, inForce⟩ := node.took_update later
  refine ⟨fun s member => sourced.schedule s (by simp [all, member]), ?_⟩
  rw [inForce]
  rcases List.eq_nil_or_concat' due with rfl | ⟨others, s, rfl⟩
  · obtain ⟨params, announced, bound⟩ := sourced.inForce
    refine ⟨params, announced.imp_right ?_, bound⟩
    rintro ⟨t, called, long⟩
    exact ⟨t, called, long.trans (Int64.le_iff_toInt_le.mp le)⟩
  · obtain ⟨t, called, time⟩ := sourced.schedule s (by simp [all])
    refine ⟨s.params, .inr ⟨t, called, ?_⟩, by simp⟩
    rw [← toInt_add_delay (clock _ called), ← time, ← Int64.le_iff_toInt_le]
    exact early s (by simp)

/-- New parameters are applied at once or scheduled. -/
theorem Sourced.updateParamsAt (sourced : Sourced initial calls now node) (le : now ≤ later)
    (called : (later, some params) ∈ calls)
    : Sourced initial calls later (node.updateParamsAt later params) := by
  have updated := sourced.update clock le
  unfold ClientNode.updateParamsAt
  extract_lets node
  split
  · rename_i higher
    obtain ⟨old, announced, bound⟩ := updated.inForce
    exact ⟨nofun, old, announced, UInt64.le_trans bound higher⟩
  · split
    · exact ⟨fun s member => updated.schedule s (List.mem_of_mem_take member), updated.inForce⟩
    · refine ⟨fun s member => ?_, updated.inForce⟩
      rcases List.mem_append.mp member with old | new
      · exact updated.schedule s old
      · obtain rfl := List.mem_singleton.mp new
        exact ⟨later, called, rfl⟩

/-- The source of the parameters is known after every list of calls. -/
theorem Sourced.run (sourced : Sourced initial calls now node) (le : now ≤ later)
    (ordered : done.Pairwise (·.1 ≤ ·.1)) (past : ∀ c ∈ done, c ∈ calls ∧ now ≤ c.1 ∧ c.1 ≤ later)
    : Sourced initial calls later ((done.foldl ClientNode.call node).update later) := by
  induction done generalizing now node with
  | nil => exact sourced.update clock le
  | cons c done ih =>
    obtain ⟨⟨called, since, til⟩, past⟩ := List.forall_mem_cons.mp past
    obtain ⟨first, ordered⟩ := List.pairwise_cons.mp ordered
    have next : Sourced initial calls c.1 (node.call c) := by
      obtain ⟨t, params | params⟩ := c
      · exact sourced.update clock since
      · exact sourced.updateParamsAt clock since called
    exact ih next til ordered fun d member =>
      ⟨(past d member).1, first d member, (past d member).2.2⟩

end Clock

theorem target_others (others : ∀ c ∈ after, c.2 = none)
    : (after.foldl ClientNode.call node).target = node.target := by
  induction after generalizing node with
  | nil => rfl
  | cons c after ih =>
    obtain ⟨other, others⟩ := List.forall_mem_cons.mp others
    rw [List.foldl_cons, ih others, ClientNode.call, other]
    exact node.target_update c.1

/-- A node after calls at ordered times, at which the delay does not overflow the clock. The
recharge in force is no lower than what the client was told long enough ago. Behind the delay
the parameters of the last call are in force, exactly if they were not lost to a scheduled update.
-/
theorem last_params_win (initial : ServerParams) (start now : AbsTime)
    (ordered : calls.Pairwise (·.1 ≤ ·.1)) (past : ∀ c ∈ calls, start ≤ c.1 ∧ c.1 ≤ now)
    (le : start ≤ now) (clock : ∀ c ∈ calls, c.1.toInt + decParamDelay.toInt < 2 ^ 63)
    : let run (calls : Calls) := calls.foldl ClientNode.call (newClientNode initial start)
      (∃ params, Announced initial calls now params
        ∧ params.minRecharge ≤ ((run calls).update now).params.minRecharge)
      ∧ ∀ before t params after, calls = before ++ (t, some params) :: after →
        (∀ c ∈ after, c.2 = none) → t.toInt + decParamDelay.toInt ≤ now.toInt →
        (((run calls).update now).params = params ↔ ((run before).update t).Takes params) := by
  intro run
  have first : Sourced initial calls start (newClientNode initial start) :=
    ⟨nofun, initial, .inl rfl, UInt64.le_refl _⟩
  have sourced := first.run clock le ordered fun c member => ⟨member, past c member⟩
  refine ⟨sourced.inForce, ?_⟩
  rintro before t params after rfl others long
  rw [params_of_due]
  · simp only [run, List.foldl_append, List.foldl_cons, target_others others]
    exact target_updateParamsAt_iff
  · -- Every scheduled update was called for, and no later than the last call.
    intro s member
    obtain ⟨since, called, time⟩ := sourced.schedule s member
    have early : since ≤ t := by
      simp only [List.pairwise_append, List.mem_cons, forall_eq_or_imp] at ordered
      rcases List.mem_append.mp called with old | new
      · exact (ordered.2.2 _ old).1
      · rcases List.mem_cons.mp new with last | later
        · cases last
          exact Int64.le_refl _
        · cases others _ later
    rw [Int64.le_iff_toInt_le] at early ⊢
    have fits := clock (since, some s.params) called
    rw [time, toInt_add_delay fits]
    exact (Int.add_le_add_right early _).trans long

/-- The recharge is lowered from 10 to 8, and to 5 while that is still scheduled. -/
theorem last_params_win_lowered
    : (([(0, some ⟨300, 8⟩), (1, some ⟨300, 5⟩), (2500000000, none)].foldl ClientNode.call
        (newClientNode ⟨300, 10⟩ 0)).update 3000000000).params = ⟨300, 5⟩ :=
  ((last_params_win ⟨300, 10⟩ 0 3000000000 (by decide) (by decide) (by decide) (by decide)).2
    [(0, some ⟨300, 8⟩)] 1 ⟨300, 5⟩ [(2500000000, none)] rfl (by decide) (by decide)).mpr
    (.inr nofun)

/-- The recharge is lowered from 10 to 5, and set to 7 before that takes force. -/
theorem params_lost
    : (([(0, some ⟨300, 5⟩), (1, some ⟨300, 7⟩)].foldl ClientNode.call
        (newClientNode ⟨300, 10⟩ 0)).update 3000000000).params = ⟨300, 5⟩ := by
  decide

end GoBinacoin.FlowControl
