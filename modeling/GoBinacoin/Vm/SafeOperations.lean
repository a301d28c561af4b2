import GoBinacoin.Vm.Safety

/-! Every operation of every table is sound: its gas function, the size of memory it asks for
and its execution agree on the stack and the memory they need.
-/

namespace GoBinacoin.Vm

open Program State

variable {B : Backend}

/-- A memory size function that reads words of the stack, and nothing else. -/
structure Sizes (n : Nat) (size : MemorySize B) (f : List Word → Option UInt64) : Prop where
  run : ∀ s, n ≤ s.stack.length → size s = (.ok (f s.stack), s)

variable {n pops pushes : Nat} {m : Memory} {operation : Operation B} {s : Scope B}
  {x price : UInt64} {execute : Execute B} {gas : GasFunc B}

theorem back_run (deep : n < s.stack.length) : back n s = (.ok (s.stack.getD n 0), s) := by
  have found := List.getElem?_eq_getElem deep
  simp only [back, Bind.bind, Prog.bind, Prog.get, found, List.getD_eq_getElem?_getD]
  rfl

def regionSize (off l : Nat) (stack : List Word) : Option UInt64 :=
  calcMemSize64 (stack.getD off 0) (stack.getD l 0)

variable {off a b d : Nat}

theorem sizes_memoryRegion {l : Nat} (hasOff : off < n) (hasLength : l < n)
    : Sizes n (memoryRegion off l : MemorySize B) (regionSize off l) := by
  refine ⟨fun s deep => ?_⟩
  simp only [memoryRegion, Bind.bind, Prog.bind, back_run (show off < s.stack.length by omega),
    back_run (show l < s.stack.length by omega)]
  rfl

theorem sizes_memoryFixed (length : UInt64) (hasOff : 0 < n)
    : Sizes n (memoryFixed length : MemorySize B)
        fun stack => calcMemSize64WithUint (stack.getD 0 0) length := by
  refine ⟨fun s deep => ?_⟩
  simp only [memoryFixed, Bind.bind, Prog.bind, back_run (show 0 < s.stack.length by omega)]
  rfl

def regionsSize (a b c d : Nat) (stack : List Word) : Option UInt64 :=
  (regionSize a b stack).bind fun x =>
    (regionSize c d stack).map fun y => if x > y then x else y

/-- The larger of two regions is asked for. -/
theorem sizes_memoryRegions {c : Nat} (hasA : a < n) (hasB : b < n) (hasC : c < n) (hasD : d < n)
    : Sizes n (memoryRegions a b c d : MemorySize B) (regionsSize a b c d) := by
  refine ⟨fun s deep => ?_⟩
  have first := (sizes_memoryRegion (B := B) hasA hasB).run s deep
  have second := (sizes_memoryRegion (B := B) hasC hasD).run s deep
  simp only [memoryRegions, Bind.bind, Prog.bind, first, regionsSize]
  rcases regionSize a b s.stack with _ | x
  · rfl
  · simp only [Prog.bind, second]
    cases regionSize c d s.stack with
    | none => rfl
    | some y => rfl

theorem fits_of_region {off l : Word}
    (run : calcMemSize64 off l = some x) (enough : x.toNat ≤ m.store.length)
    : Fits m (uint64 off) (uint64 l) := by
  rcases (calcMemSize64_some run).2 with zero | sum
  · exact .inl zero
  · exact .inr (by omega)

/-- Both regions fit then. -/
theorem fits_of_regions {c : Nat} {stack : List Word}
    (run : regionsSize a b c d stack = some x) (enough : x.toNat ≤ m.store.length)
    : Fits m (uint64 (stack.getD a 0)) (uint64 (stack.getD b 0))
      ∧ Fits m (uint64 (stack.getD c 0)) (uint64 (stack.getD d 0)) := by
  obtain ⟨y, first, rest⟩ := Option.bind_eq_some_iff.mp run
  obtain ⟨z, second, larger⟩ := Option.map_eq_some_iff.mp rest
  have bounds : y.toNat ≤ x.toNat ∧ z.toNat ≤ x.toNat := by
    rw [← larger]
    split
    · rename_i above
      exact ⟨le_rfl, UInt64.le_iff_toNat_le.mp (UInt64.le_of_lt above)⟩
    · rename_i notAbove
      exact ⟨UInt64.le_iff_toNat_le.mp (UInt64.not_lt.mp notAbove), le_rfl⟩
  exact ⟨fits_of_region first (by omega), fits_of_region second (by omega)⟩

/-! Executions. -/

/-- The execution takes words from the stack, puts words there, and keeps the size of memory. -/
def Works (pops pushes : Nat) (p : Code B Bytes) (s : Scope B) : Prop :=
  Ensures SafeCode p s fun _ s' =>
    s'.stack.length + pops = s.stack.length + pushes
    ∧ s'.mem.store.length = s.mem.store.length

/-- The region that two words of the stack stand for fits. -/
def FitsAt (s : Scope B) (offset size : Nat) : Prop :=
  Fits s.mem (uint64 (s.stack.getD offset 0)) (uint64 (s.stack.getD size 0))

section Executions

variable {s : Scope B} (contract : Contract) {offset size : Word} {l : List Word}
  {go : Evm B CallResult}

variable {β : Type} {Q : β → Scope B → Prop} {f : Bytes → Code B β}

theorem then_readMemory (bounded : Bounded s.mem) (fits : Fits s.mem (uint64 offset) (uint64 size))
    (next : ∀ bytes, Ensures SafeCode (f bytes) s Q)
    : Ensures SafeCode (readMemory offset size >>= f) s Q := by
  obtain ⟨bytes, read⟩ := Memory.read_fits bounded fits
  refine .seq (then_get ?_)
  rw [read]
  exact next bytes

theorem then_changeMemory {f : Unit → Code B β} {change : Memory → Except Stop Memory}
    (fits : ∃ m, change s.mem = .ok m ∧ m.store.length = s.mem.store.length)
    (next : ∀ m, m.store.length = s.mem.store.length
      → Ensures SafeCode (f ()) { s with mem := m } Q)
    : Ensures SafeCode (changeMemory change >>= f) s Q := by
  obtain ⟨m, changed, length⟩ := fits
  refine .seq (then_get ?_)
  rw [changed]
  exact next m length

theorem exists_one (deep : 1 ≤ l.length) : ∃ x rest, l = x :: rest :=
  match l, deep with
  | x :: rest, _ => ⟨x, rest, rfl⟩

theorem exists_two (deep : 2 ≤ l.length) : ∃ x y rest, l = x :: y :: rest :=
  match l, deep with
  | x :: y :: rest, _ => ⟨x, y, rest, rfl⟩

theorem exists_three (deep : 3 ≤ l.length) : ∃ x y z rest, l = x :: y :: z :: rest :=
  match l, deep with
  | x :: y :: z :: rest, _ => ⟨x, y, z, rest, rfl⟩

theorem exists_four (deep : 4 ≤ l.length) : ∃ w x y z rest, l = w :: x :: y :: z :: rest :=
  match l, deep with
  | w :: x :: y :: z :: rest, _ => ⟨w, x, y, z, rest, rfl⟩

theorem works_done {s' : Scope B} {r : Bytes}
    (length : s'.stack.length + pops = s.stack.length + pushes)
    (store : s'.mem.store.length = s.mem.store.length)
    : Ensures SafeCode (pure r) s' fun _ s'' =>
        s''.stack.length + pops = s.stack.length + pushes
        ∧ s''.mem.store.length = s.mem.store.length :=
  ⟨length, store⟩

theorem works_unaryOp (f : Word → Word) (deep : 1 ≤ s.stack.length)
    : Works 1 1 (unaryOp f contract) s := by
  obtain ⟨x, rest, shape⟩ := exists_one deep
  exact then_pop shape (then_push (works_done (by simp [shape]) rfl))

theorem works_binaryOp (f : Word → Word → Word) (deep : 2 ≤ s.stack.length)
    : Works 2 1 (binaryOp f contract) s := by
  obtain ⟨x, y, rest, shape⟩ := exists_two deep
  exact then_pop shape (then_pop rfl (then_push (works_done (by simp [shape]) rfl)))

theorem works_ternaryOp (f : Word → Word → Word → Word) (deep : 3 ≤ s.stack.length)
    : Works 3 1 (ternaryOp f contract) s := by
  obtain ⟨x, y, z, rest, shape⟩ := exists_three deep
  exact then_pop shape (then_pop rfl (then_pop rfl (then_push (works_done (by simp [shape]) rfl))))

theorem works_pushOp (f : Contract → Scope B → Word) : Works 0 1 (pushOp f contract) s :=
  then_get (then_push (works_done rfl rfl))

theorem works_opPop (deep : 1 ≤ s.stack.length) : Works 1 0 (opPop contract) s := by
  obtain ⟨x, rest, shape⟩ := exists_one deep
  exact then_pop shape (works_done (by simp [shape]) rfl)

theorem getData_cases (data : Bytes) (start size : UInt64)
    : (∃ bytes, getData data start size = .ok bytes)
      ∨ getData data start size = .error (.panic .dataBounds) := by
  unfold getData
  extract_lets length start stop
  split
  · exact .inr rfl
  · exact .inl ⟨_, rfl⟩

theorem then_getData {data : Bytes}
    {start size : UInt64} (next : ∀ bytes, Ensures SafeCode (f bytes) s Q)
    : Ensures SafeCode (Prog.ofExcept (getData data start size) >>= f) s Q := by
  rcases getData_cases data start size with ⟨bytes, read⟩ | outside
  · rw [read]
    exact next bytes
  · rw [outside]
    trivial

theorem works_opCallDataLoad (deep : 1 ≤ s.stack.length)
    : Works 1 1 (opCallDataLoad contract) s := by
  obtain ⟨x, rest, shape⟩ := exists_one deep
  refine then_pop shape ?_
  split
  · exact then_getData fun bytes => then_push (works_done (by simp [shape]) rfl)
  · exact then_push (works_done (by simp [shape]) rfl)

theorem then_setMemory {f : Unit → Code B β} {value : Bytes} (bounded : Bounded s.mem)
    (fits : Fits s.mem (uint64 offset) (uint64 size))
    (next : ∀ m, m.store.length = s.mem.store.length
      → Ensures SafeCode (f ()) { s with mem := m } Q)
    : Ensures SafeCode (setMemory offset size value >>= f) s Q :=
  then_changeMemory (Memory.set_fits bounded fits value) next

theorem works_copyOp (data : Contract → Bytes) (deep : 3 ≤ s.stack.length)
    (bounded : Bounded s.mem) (fits : FitsAt s 0 2)
    : Works 3 0 (copyOp data contract) s := by
  obtain ⟨x, y, z, rest, shape⟩ := exists_three deep
  rw [FitsAt, shape] at fits
  refine then_pop shape (then_pop rfl (then_pop rfl (then_getData fun bytes => ?_)))
  exact then_setMemory bounded fits fun m length => works_done (by simp [shape]) length

theorem works_opExtCodeCopy (deep : 4 ≤ s.stack.length) (bounded : Bounded s.mem)
    (fits : FitsAt s 1 3)
    : Works 4 0 (opExtCodeCopy contract) s := by
  obtain ⟨w, x, y, z, rest, shape⟩ := exists_four deep
  rw [FitsAt, shape] at fits
  refine then_pop shape (then_pop rfl (then_pop rfl (then_pop rfl ?_)))
  refine (calm_query _ _).andThen fun code m => then_getData fun bytes => ?_
  exact then_setMemory bounded fits fun m length => works_done (by simp [shape]) length

/-- The end of the slice does not wrap: the length was accepted as a size of memory. -/
theorem end_of_returnData {length : Word} {offset64 end64 : UInt64}
    (small : (uint64 length).toNat ≤ maxMemory.toNat) (fits : isUint64 length = true)
    (start : uint64WithOverflow offset = some offset64)
    (stop : uint64WithOverflow (offset + length) = some end64)
    : offset64 ≤ end64 := by
  obtain ⟨offsetFits, rfl⟩ := uint64WithOverflow_some start
  obtain ⟨endFits, rfl⟩ := uint64WithOverflow_some stop
  rw [maxMemory_toNat, toNat_uint64 fits] at small
  rw [UInt64.le_iff_toNat_le, toNat_uint64 offsetFits, toNat_uint64 endFits, BitVec.toNat_add]
  have : offset.toNat < 2 ^ 64 := of_decide_eq_true offsetFits
  omega

/-- The data returned is copied within its bounds. -/
theorem works_opReturnDataCopy (deep : 3 ≤ s.stack.length) (bounded : Bounded s.mem)
    (isSize : isUint64 (s.stack.getD 2 0) = true) (fits : FitsAt s 0 2)
    : Works 3 0 (opReturnDataCopy contract) s := by
  obtain ⟨x, y, z, rest, shape⟩ := exists_three deep
  rw [FitsAt, shape] at fits
  rw [shape] at isSize
  have small : (uint64 z).toNat ≤ maxMemory.toNat := by
    rcases fits with zero | inside
    · have zero : uint64 z = 0 := zero
      rw [zero]
      exact Nat.zero_le _
    · have inside : (uint64 x).toNat + (uint64 z).toNat ≤ s.mem.store.length := inside
      unfold Bounded at bounded
      omega
  refine then_pop shape (then_pop rfl (then_pop rfl (then_get ?_)))
  split
  · rename_i offset64 end64 start stop
    have order := end_of_returnData small isSize start stop
    refine .ite (fun _ => trivial) fun _ => .ite (fun wraps => ?_) fun _ => ?_
    · exact absurd wraps (UInt64.not_lt.mpr order)
    · exact then_setMemory bounded fits fun m length => works_done (by simp [shape]) length
  · trivial

theorem works_opSha3 (env : Env) (deep : 2 ≤ s.stack.length) (bounded : Bounded s.mem)
    (fits : FitsAt s 0 1)
    : Works 2 1 (opSha3 env contract) s := by
  obtain ⟨x, y, rest, shape⟩ := exists_two deep
  rw [FitsAt, shape] at fits
  refine then_pop shape (then_pop rfl (then_readMemory bounded fits fun data => ?_))
  split
  · exact (calm_perform _).andThen fun _ m => then_push (works_done (by simp [shape]) rfl)
  · exact then_push (works_done (by simp [shape]) rfl)

theorem works_opMload (deep : 1 ≤ s.stack.length) (bounded : Bounded s.mem)
    (fits : Fits s.mem (uint64 (s.stack.getD 0 0)) 32)
    : Works 1 1 (opMload contract) s := by
  obtain ⟨x, rest, shape⟩ := exists_one deep
  rw [shape] at fits
  refine then_pop shape (then_readMemory bounded fits fun data => ?_)
  exact then_push (works_done (by simp [shape]) rfl)

theorem works_opMstore (deep : 2 ≤ s.stack.length) (bounded : Bounded s.mem)
    (fits : (uint64 (s.stack.getD 0 0)).toNat + 32 ≤ s.mem.store.length)
    : Works 2 0 (opMstore contract) s := by
  obtain ⟨x, y, rest, shape⟩ := exists_two deep
  rw [shape] at fits
  refine then_pop shape (then_pop rfl ?_)
  exact then_changeMemory (Memory.set32_fits bounded fits y) fun m length =>
    works_done (by simp [shape]) length

theorem works_opMstore8 (deep : 2 ≤ s.stack.length) (bounded : Bounded s.mem)
    (fits : (uint64 (s.stack.getD 0 0)).toNat + 1 ≤ s.mem.store.length)
    : Works 2 0 (opMstore8 contract) s := by
  obtain ⟨x, y, rest, shape⟩ := exists_two deep
  rw [shape] at fits
  refine then_pop shape (then_pop rfl ?_)
  exact then_changeMemory (Memory.set8_fits bounded fits _) fun m length =>
    works_done (by simp [shape]) length

theorem works_opJump (deep : 1 ≤ s.stack.length) : Works 1 0 (opJump contract) s := by
  obtain ⟨x, rest, shape⟩ := exists_one deep
  exact then_pop shape (.ite (fun _ => works_done (by simp [shape]) rfl) fun _ => trivial)

theorem works_opJumpi (deep : 2 ≤ s.stack.length) : Works 2 0 (opJumpi contract) s := by
  obtain ⟨x, y, rest, shape⟩ := exists_two deep
  refine then_pop shape (then_pop rfl (.ite (fun _ => ?_) fun _ => ?_))
  · exact .ite (fun _ => works_done (by simp [shape]) rfl) fun _ => trivial
  · exact works_done (by simp [shape]) rfl

theorem works_opPush1 : Works 0 1 (opPush1 contract) s := ⟨rfl, rfl⟩

theorem works_makePush (size : Nat) : Works 0 1 (makePush size contract) s := ⟨rfl, rfl⟩

theorem works_makeDup (n : Nat) (deep : n + 1 ≤ s.stack.length)
    : Works (n + 1) (n + 2) (makeDup (n + 1) contract) s :=
  then_back (by omega) fun x _ => then_push (works_done (by simp; omega) rfl)

theorem works_makeSwap (n : Nat) (deep : n + 2 ≤ s.stack.length)
    : Works (n + 2) (n + 2) (makeSwap (n + 1) contract) s :=
  then_back (by omega) fun _ _ => then_back (by omega) fun _ _ =>
    then_modify (works_done (by simp) rfl)

theorem ensures_readMemory {Q : Bytes → Scope B → Prop}
    (bounded : Bounded s.mem) (fits : Fits s.mem (uint64 offset) (uint64 size))
    (holds : ∀ bytes, Q bytes s)
    : Ensures SafeCode (readMemory offset size) s Q := by
  obtain ⟨bytes, read⟩ := Memory.read_fits bounded fits
  refine then_get ?_
  rw [read]
  exact holds bytes

theorem works_opReturn (deep : 2 ≤ s.stack.length) (bounded : Bounded s.mem) (fits : FitsAt s 0 1)
    : Works 2 0 (opReturn contract) s := by
  obtain ⟨x, y, rest, shape⟩ := exists_two deep
  rw [FitsAt, shape] at fits
  refine then_pop shape (then_pop rfl ?_)
  exact ensures_readMemory bounded fits fun bytes => ⟨by simp [shape], rfl⟩

theorem works_readOp {read : Contract → Word → Evm B Word} (calm : ∀ x, Calm (read contract x))
    (deep : 1 ≤ s.stack.length)
    : Works 1 1 (readOp read contract) s := by
  obtain ⟨x, rest, shape⟩ := exists_one deep
  exact then_pop shape ((calm x).andThen fun value m =>
    then_push (works_done (by simp [shape]) rfl))

theorem works_opSelfBalance : Works 0 1 (opSelfBalance contract) s :=
  (calm_query _ _).andThen fun _ _ => then_push (works_done rfl rfl)

theorem works_opSstore (deep : 2 ≤ s.stack.length) : Works 2 0 (opSstore contract) s := by
  obtain ⟨x, y, rest, shape⟩ := exists_two deep
  exact then_pop shape (then_pop rfl ((calm_perform _).andThen fun _ m =>
    works_done (by simp [shape]) rfl))

/-- The topics are popped, by induction on their number. -/
theorem ensures_popTopics (n : Nat) (deep : n ≤ s.stack.length)
    : Ensures SafeCode (popTopics n) s fun _ s' => s'.stack = s.stack.drop n ∧ s'.mem = s.mem := by
  induction n generalizing s with
  | zero => exact ⟨rfl, rfl⟩
  | succ n ih =>
    obtain ⟨x, rest, shape⟩ := exists_one (show 1 ≤ s.stack.length by omega)
    rw [shape] at deep
    refine then_pop shape (Prog.Ensures.bind (ih (s := { s with stack := rest })
      (Nat.le_of_succ_le_succ deep)) fun topics s' after => ?_)
    exact ensures_pure.mpr ⟨by simp [after.1, shape], after.2⟩

/-- A log of the topics on the stack. -/
theorem works_makeLog (env : Env) (n : Nat) (deep : n + 2 ≤ s.stack.length)
    (bounded : Bounded s.mem) (fits : FitsAt s 0 1)
    : Works (n + 2) 0 (makeLog env n contract) s := by
  obtain ⟨x, y, rest, shape⟩ := exists_two (show 2 ≤ s.stack.length by omega)
  rw [FitsAt, shape] at fits
  rw [shape] at deep
  refine then_pop shape (then_pop rfl (Prog.Ensures.bind
    (ensures_popTopics n (s := { s with stack := rest }) (by simpa using deep))
    fun topics s' after => ?_))
  obtain ⟨stack, mem⟩ := after
  refine then_readMemory (mem ▸ bounded) (mem ▸ fits) fun data => (calm_perform _).andThen
    fun _ m => works_done ?_ (congrArg (·.store.length) mem)
  simp only [List.length_cons] at deep
  simp [stack, shape]
  omega

theorem works_opSuicide (deep : 1 ≤ s.stack.length) : Works 1 0 (opSuicide contract) s := by
  obtain ⟨x, rest, shape⟩ := exists_one deep
  exact then_pop shape
    ((simple_suicideTo _ _).calm.andThen fun _ m => works_done (by simp [shape]) rfl)

/-! Calls and creations. -/

theorem calm_takeSnapshot : Calm (takeSnapshot : Evm B (Nat × List (Address × Int))) :=
  fun _ => trivial

theorem calm_revertTo (snapshot : Nat × List (Address × Int))
    : Calm (revertTo snapshot : Evm B Unit) :=
  .bind (calm_perform _) fun _ => .modify _

theorem calm_settle (snapshot : Nat × List (Address × Int)) (result : CallResult)
    : Calm (settle snapshot result : Evm B CallResult) :=
  .ite (.pure _) (.bind (calm_revertTo _) fun _ => .pure _)

/-- An interpreter that stops for safe reasons only. -/
def CalmRunner (run : Runner B) : Prop :=
  ∀ contract gas input readOnly, Calm (run contract gas input readOnly)

variable {env : Env} {run : Runner B}

theorem calm_runAccount (calm : CalmRunner run) (addr : Address) (callee : Bytes → Contract)
    (gas : UInt64) (input : Bytes) (readOnly : Bool)
    : Calm (runAccount run addr callee gas input readOnly) :=
  .bind (calm_query _ _) fun _ => .bind (calm_query _ _) fun _ =>
    .bind (calm _ _ _ _) fun _ => .pure _

theorem calm_precompileOr (addr : Address) (input : Bytes) (gas : UInt64) (calm : Calm go)
    : Calm (precompileOr env addr input gas go) := by
  unfold precompileOr
  split
  · exact .pure _
  · exact calm

theorem calm_refused {gas : UInt64} (calm : Calm go) : Calm (refused env gas go) :=
  .bind .get fun _ => .ite (.pure _) (.ite (.pure _) calm)

section

variable (calm : CalmRunner run)

include calm

variable (caller addr : Address) (input : Bytes) (gas : UInt64)

theorem calm_callBody (value : Int) : Calm (callBody env run caller addr input gas value) :=
  calm_precompileOr _ _ _ (.bind (calm_query _ _) fun _ => .ite (.pure _)
    (.bind (calm_query _ _) fun _ => .bind (calm _ _ _ _) fun _ => .pure _))

theorem calm_call (value : Int) : Calm (call env run caller addr input gas value) := by
  refine calm_refused
    (.bind (.ite (simple_canTransfer _ _).calm (.pure _)) fun _ => .ite ?_ (.pure _))
  refine .bind calm_takeSnapshot fun _ => .bind (calm_query _ _) fun _ => .ite (.pure _) ?_
  exact .bind (simple_performIf _ _).calm fun _ => .bind (simple_transfer _ _ _).calm fun _ =>
    .bind (calm_callBody calm _ _ _ _ _) fun _ => calm_settle _ _

theorem calm_callCode (value : Int) : Calm (callCode env run caller addr input gas value) := by
  refine calm_refused (.bind (simple_canTransfer _ _).calm fun _ => .ite ?_ (.pure _))
  exact .bind calm_takeSnapshot fun _ =>
    .bind (calm_precompileOr _ _ _ (calm_runAccount calm _ _ _ _ _)) fun _ => calm_settle _ _

theorem calm_delegateCall (parent : Contract) (addr : Address) (input : Bytes) (gas : UInt64)
    : Calm (delegateCall env run parent addr input gas) :=
  calm_refused (.bind calm_takeSnapshot fun _ =>
    .bind (calm_precompileOr _ _ _ (calm_runAccount calm _ _ _ _ _)) fun _ => calm_settle _ _)

theorem calm_staticCall : Calm (staticCall env run caller addr input gas) :=
  calm_refused (.bind calm_takeSnapshot fun _ => .bind (calm_perform _) fun _ =>
    .bind (calm_precompileOr _ _ _ (calm_runAccount calm _ _ _ _ _)) fun _ => calm_settle _ _)

omit calm in
theorem calm_settleCreate (snapshot : Nat × List (Address × Int)) (result : RunResult)
    : Calm (settleCreate env snapshot result : Evm B RunResult) :=
  .ite (.bind (calm_revertTo _) fun _ => .pure _) (.pure _)

/-- A creation is calm. -/
theorem calm_createAt (caller : Address) (code : Bytes) (gas : UInt64)
    (value : Int) (address : Address)
    : Calm (createAt env run caller code gas value address) := by
  refine .bind .get fun _ => .ite (.pure _) (.bind (simple_canTransfer _ _).calm fun _ =>
    .ite ?_ (.pure _))
  refine .bind (calm_query _ _) fun _ => .bind (calm_perform _) fun _ =>
    .bind (simple_performIf _ _).calm fun _ => .bind (calm_query _ _) fun _ =>
      .bind (calm_query _ _) fun _ => .ite (.pure _) ?_
  refine .bind calm_takeSnapshot fun _ => .bind (calm_perform _) fun _ =>
    .bind (simple_performIf _ _).calm fun _ => .bind (simple_transfer _ _ _).calm fun _ =>
      .bind .get fun _ =>
      .ite (.pure _) ?_
  exact .bind (calm _ _ _ _) fun _ => .bind (simple_storeCode _ _).calm fun _ =>
    .bind (calm_settleCreate _ _) fun _ => .pure _

end

theorem calm_addStipend (temp : UInt64) (value : Word)
    : Calm (addStipend temp value : Evm B UInt64) :=
  .ite (calm_gasSum _ _) (.pure _)

/-- The output goes to its region. -/
theorem ensures_finishCall {inOffset inSize retOffset retSize : Word} (bounded : Bounded s.mem)
    (input : Fits s.mem (uint64 inOffset) (uint64 inSize))
    (output : Fits s.mem (uint64 retOffset) (uint64 retSize)) (args : Bytes) (result : CallResult)
    : Ensures SafeCode (finishCall inOffset inSize retOffset retSize args result) s fun _ s' =>
        s'.stack.length = s.stack.length + 1 ∧ s'.mem.store.length = s.mem.store.length := by
  have rest {t : Scope B} (pushed : t.stack.length = s.stack.length + 1)
      (length : t.mem.store.length = s.mem.store.length)
      : Ensures SafeCode (readMemory inOffset inSize) t fun _ s' =>
          s'.stack.length = s.stack.length + 1 ∧ s'.mem.store.length = s.mem.store.length := by
    refine ensures_readMemory ?_ ?_ fun bytes => ⟨pushed, length⟩
    · unfold Bounded
      rw [length]
      exact bounded
    · unfold Fits
      rw [length]
      exact input
  refine then_push ?_
  unfold storeOutput
  split
  · refine then_setMemory bounded output fun m length => .seq (ensures_returnGas fun _ _ => ?_)
    split
    · exact ⟨rfl, length⟩
    · exact rest rfl length
  · refine .seq (ensures_pure.mpr (.seq (ensures_returnGas fun _ _ => ?_)))
    split
    · exact ⟨rfl, rfl⟩
    · exact rest rfl rfl

/-- The operands of a call below the gas; only some calls have a value on the stack. -/
structure Operands where
  addr : Word
  value : Word := 0
  inOffset : Word
  inSize : Word
  retOffset : Word
  retSize : Word

def Operands.words (withValue : Bool) (c : Operands) : List Word :=
  c.addr :: (if withValue then [c.value] else [])
    ++ [c.inOffset, c.inSize, c.retOffset, c.retSize]

/-- What a call operation does with its operands. -/
def enterCall (enter : Contract → Address → Bytes → UInt64 → Int → Evm B CallResult)
    (contract : Contract) (gasTemp : UInt64) (c : Operands)
    : Code B Bytes := do
  let args ← readMemory c.inOffset c.inSize
  let gas ← onMachine (addStipend gasTemp c.value)
  let result ← onMachine (enter contract (wordAddress c.addr) args gas c.value.toNat)
  finishCall c.inOffset c.inSize c.retOffset c.retSize args result

section CallOp

variable {withValue : Bool} {c : Operands} {rest : List Word} {gasWord : Word}
  {enter : Contract → Address → Bytes → UInt64 → Int → Evm B CallResult}

/-- A call takes its operands from the stack. -/
theorem callOp_eq (shape : s.stack = gasWord :: (c.words withValue ++ rest))
    (valued : withValue = false → c.value = 0)
    : callOp withValue enter contract s
      = enterCall enter contract s.machine.callGasTemp c { s with stack := rest } := by
  obtain ⟨gas, stack, mem, pc, machine⟩ := s
  cases shape
  rcases withValue with _ | _
  · obtain ⟨addr, value, inOffset, inSize, retOffset, retSize⟩ := c
    cases valued rfl
    rfl
  · rfl

/-- The operands of a call are there if the stack is deep enough. -/
theorem exists_operands (deep : cond withValue 7 6 ≤ l.length)
    : ∃ (c : Operands) (gasWord : Word) (rest : List Word),
        l = gasWord :: (c.words withValue ++ rest) ∧ (withValue = false → c.value = 0) :=
  match withValue, l, deep with
  | true, gasWord :: addr :: value :: inOffset :: inSize :: retOffset :: retSize :: rest, _ =>
    ⟨⟨addr, value, inOffset, inSize, retOffset, retSize⟩, gasWord, rest, rfl, nofun⟩
  | false, gasWord :: addr :: inOffset :: inSize :: retOffset :: retSize :: rest, _ =>
    ⟨⟨addr, 0, inOffset, inSize, retOffset, retSize⟩, gasWord, rest, rfl, fun _ => rfl⟩

/-- All operations that call. -/
theorem works_callOp
    (calm : ∀ contract addr args gas value, Calm (enter contract addr args gas value))
    (deep : cond withValue 7 6 ≤ s.stack.length) (bounded : Bounded s.mem)
    (fits : let first := cond withValue 3 2
      FitsAt s (first + 2) (first + 3) ∧ FitsAt s first (first + 1))
    : Works (cond withValue 7 6) 1 (callOp withValue enter contract) s := by
  obtain ⟨c, gasWord, rest, shape, valued⟩ := exists_operands deep
  obtain ⟨output, input⟩ : Fits s.mem (uint64 c.retOffset) (uint64 c.retSize)
      ∧ Fits s.mem (uint64 c.inOffset) (uint64 c.inSize) := by
    simp only [FitsAt, shape] at fits
    cases withValue <;> exact fits
  have length : s.stack.length = rest.length + cond withValue 7 6 := by
    rw [shape]
    cases withValue <;> rfl
  refine .congr (callOp_eq contract shape valued) ?_
  refine then_readMemory bounded input fun args => (calm_addStipend _ _).andThen fun gas m =>
    (calm _ _ _ _ _).andThen fun result m => ?_
  refine Prog.Ensures.mono (ensures_finishCall (by exact bounded) (by exact input)
    (by exact output) args result) fun _ s' after => ⟨?_, after.2⟩
  have popped : s'.stack.length = rest.length + 1 := after.1
  omega

end CallOp

theorem ensures_finishCreate (success : Bool) (result : CreateResult)
    : Ensures SafeCode (finishCreate success result) s fun _ s' =>
        s'.stack.length = s.stack.length + 1 ∧ s'.mem.store.length = s.mem.store.length :=
  then_push (.seq (ensures_returnGas fun _ _ => ⟨rfl, rfl⟩))

theorem then_createGas {f : UInt64 → Code B β}
    {reserve : Bool} (next : ∀ given gas, Ensures SafeCode (f given) { s with gas := gas } Q)
    : Ensures SafeCode (createGas reserve >>= f) s Q :=
  .seq (then_get (.seq (ensures_useGas fun _ gas => next _ gas)))

/-- A creation from code in memory. -/
theorem works_opCreate (calm : CalmRunner run) (deep : 3 ≤ s.stack.length)
    (bounded : Bounded s.mem) (fits : FitsAt s 1 2)
    : Works 3 1 (opCreate env run contract) s := by
  obtain ⟨x, y, z, rest, shape⟩ := exists_three deep
  rw [FitsAt, shape] at fits
  refine then_pop shape (then_pop rfl (then_pop rfl (then_readMemory bounded fits fun input =>
    then_createGas fun given gas => ?_)))
  refine Calm.andThen (.bind (calm_query _ _) fun _ => calm_createAt calm _ _ _ _ _)
    fun result m => ?_
  refine (ensures_finishCreate _ result).mono fun _ s' after => ?_
  exact ⟨by rw [after.1, shape]; simp, after.2⟩

theorem works_opCreate2 (calm : CalmRunner run) (deep : 4 ≤ s.stack.length)
    (bounded : Bounded s.mem) (fits : FitsAt s 1 2)
    : Works 4 1 (opCreate2 env run contract) s := by
  obtain ⟨w, x, y, z, rest, shape⟩ := exists_four deep
  rw [FitsAt, shape] at fits
  refine then_pop shape (then_pop rfl (then_pop rfl (then_pop rfl (then_readMemory bounded fits
    fun input => then_createGas fun given gas => ?_))))
  refine (calm_createAt calm _ _ _ _ _).andThen fun result m => ?_
  refine (ensures_finishCreate _ result).mono fun _ s' after => ?_
  exact ⟨by rw [after.1, shape]; simp, after.2⟩

end Executions

/-! Operations of the tables. -/

/-- The memory covers what an operation asks for. -/
def Covered (operation : Operation B) (s : Scope B) : Prop :=
  ∀ size ∈ operation.memorySize,
    ∃ x : UInt64, size s = (.ok (some x), s) ∧ x.toNat ≤ s.mem.store.length

/-- The three parts of an operation fit together. -/
structure Sound (operation : Operation B) : Prop where
  gas
    : ∀ gas ∈ operation.dynamicGas, ∀ contract size s, operation.minStack ≤ s.stack.length
      → Ensures SafeCode (gas contract size) s fun _ s' =>
          Held s s' ∧ (operation.memorySize.isSome = true → size ≤ maxMemory)
  metered : operation.memorySize.isSome = true → operation.dynamicGas.isSome = true
  memory
    : ∀ size ∈ operation.memorySize, ∃ f, Sizes operation.minStack size f
  execute
    : ∀ contract s, operation.minStack ≤ s.stack.length → s.stack.length ≤ operation.maxStack
      → Bounded s.mem → Covered operation s
      → Ensures SafeCode (operation.execute contract) s fun _ s' =>
          s'.stack.length ≤ stackLimit ∧ Bounded s'.mem

/-- An operation that works stays within the limit of the stack. -/
theorem Works.within {p : Code B Bytes}
    (works : Works pops pushes p s) (low : s.stack.length ≤ maxStack pops pushes)
    (few : pushes ≤ stackLimit + pops) (bounded : Bounded s.mem)
    : Ensures SafeCode p s fun _ s' => s'.stack.length ≤ stackLimit ∧ Bounded s'.mem := by
  refine Prog.Ensures.mono works fun _ s' after => ⟨?_, ?_⟩
  · unfold maxStack at low
    omega
  · unfold Bounded at bounded ⊢
    omega

/-- An operation without memory is sound if it works. -/
theorem Sound.plain
    (works : ∀ contract s, pops ≤ s.stack.length → Works pops pushes (execute contract) s)
    (few : pushes ≤ stackLimit + pops := by decide)
    : Sound (Vm.plain execute price pops pushes) where
  gas := nofun
  metered := nofun
  memory := nofun
  execute contract s deep low bounded _ := (works contract s deep).within low few bounded

/-- An operation without memory whose price depends on the state. -/
theorem Sound.metering (sound : Sound operation)
    (safe : GasSafe operation.minStack gas) (noMemory : operation.memorySize = none)
    : Sound { operation with dynamicGas := some gas } where
  gas other isGas contract size s deep := by
    obtain rfl : gas = other := Option.some.inj isGas
    refine (safe contract size s deep).mono fun _ s' held => ⟨held, fun isSome => ?_⟩
    rw [show operation.memorySize = none from noMemory] at isSome
    cases isSome
  metered _ := rfl
  memory := sound.memory
  execute := sound.execute

/-- An operation on memory is sound if it works where its region fits. -/
theorem Sound.onMemory
    {size : MemorySize B} {f : List Word → Option UInt64} (safe : MemoryGasSafe n gas)
    (sizes : Sizes pops size f)
    (works : ∀ contract s x, pops ≤ s.stack.length → Bounded s.mem → f s.stack = some x
      → x.toNat ≤ s.mem.store.length → Works pops pushes (execute contract) s)
    (enough : n ≤ pops := by decide) (few : pushes ≤ stackLimit + pops := by decide)
    : Sound (Vm.onMemory execute price gas pops pushes size) where
  gas other isGas contract size s deep := by
    obtain rfl : gas = other := Option.some.inj isGas
    refine (safe contract size s (enough.trans deep)).mono fun _ s' held =>
      ⟨held.1, fun _ => held.2⟩
  metered _ := rfl
  memory other isSize := ⟨f, Option.some.inj isSize ▸ sizes⟩
  execute contract s deep low bounded covered := by
    obtain ⟨x, run, inside⟩ := covered size rfl
    have value := (sizes.run s deep).symm.trans run
    have value : f s.stack = some x := by simpa using value
    exact (works contract s x deep bounded value inside).within low few bounded

theorem Sound.onRegion {l : Nat} (safe : MemoryGasSafe n gas)
    (works : ∀ contract s, pops ≤ s.stack.length → Bounded s.mem
      → FitsAt s off l
      → Works pops pushes (execute contract) s)
    (enough : n ≤ pops := by decide) (few : pushes ≤ stackLimit + pops := by decide)
    (hasOff : off < pops := by decide) (hasLength : l < pops := by decide)
    : Sound (Vm.onMemory execute price gas pops pushes (memoryRegion off l)) :=
  .onMemory safe (sizes_memoryRegion hasOff hasLength) (fun contract s _ deep bounded run inside =>
    works contract s deep bounded (fits_of_region run inside)) enough few

theorem Sound.flags (sound : Sound operation) (halts jumps writes reverts returns : Bool)
    : Sound { operation with
        halts := halts, jumps := jumps, writes := writes, reverts := reverts,
        returns := returns } :=
  ⟨sound.gas, sound.metered, sound.memory, sound.execute⟩

/-- Operations that call are sound. -/
theorem Sound.calls (withValue : Bool)
    {enter : Contract → Address → Bytes → UInt64 → Int → Evm B CallResult}
    (calm : ∀ contract addr args gas value, Calm (enter contract addr args gas value))
    (safe : MemoryGasSafe n gas) (enough : n ≤ 6 := by decide)
    : let first := cond withValue 3 2
      Sound { Vm.onMemory (callOp withValue enter) price gas (cond withValue 7 6) 1
          (memoryRegions (first + 2) (first + 3) first (first + 1)) with returns := true } := by
  refine (Sound.onMemory safe ?_ (fun contract s x deep bounded run inside =>
    works_callOp contract calm deep bounded (fits_of_regions run inside)) ?_ ?_).flags _ _ _ _ true
  · cases withValue <;> exact sizes_memoryRegions (by decide) (by decide) (by decide) (by decide)
  · cases withValue <;> simp only [cond_true, cond_false] <;> omega
  · cases withValue <;> decide

theorem Fits.of_fixed {off : Word} {length : UInt64} (nonzero : length ≠ 0)
    (run : calcMemSize64WithUint off length = some x) (inside : x.toNat ≤ m.store.length)
    : (uint64 off).toNat + length.toNat ≤ m.store.length := by
  have sum := (calcMemSize64WithUint_some run).resolve_left nonzero
  omega

/-- Every operation of the table is sound. -/
theorem Entry.sound {env : Env} {run : Runner B} {store : GasFunc B} {warm : Bool} {op : OpCode}
    (entry : Entry env run store warm op operation)
    (calm : CalmRunner run) (storeSafe : GasSafe 2 store)
    : Sound operation := by
  cases entry with
  | unary f _ => exact .plain (fun contract s => works_unaryOp contract f)
  | binary f _ => exact .plain (fun contract s => works_binaryOp contract f)
  | exp price =>
    exact (Sound.plain fun contract s => works_binaryOp contract wordExp).metering
      (gasSafe_gasExp price) rfl
  | ternary f _ => exact .plain (fun contract s => works_ternaryOp contract f)
  | push f _ => exact .plain (fun contract s _ => works_pushOp contract f)
  | callDataLoad => exact .plain (fun contract s => works_opCallDataLoad contract)
  | copy data =>
    exact .onRegion (memoryGasSafe_perWord copyGas 2) fun contract s => works_copyOp contract data
  | extCodeCopy _ gas =>
    have sound {gas : GasFunc B} (safe : MemoryGasSafe 4 gas) (price : UInt64)
        : Sound (onMemory opExtCodeCopy price gas 4 0 memoryExtCodeCopy) :=
      .onRegion safe fun contract s => works_opExtCodeCopy contract
    rcases gas with rfl | rfl
    · exact sound (memoryGasSafe_perWord copyGas 3) _
    · exact sound memoryGasSafe_gasExtCodeCopyEIP2929 _
  | returnDataCopy =>
    refine .onMemory (memoryGasSafe_perWord copyGas 2)
      (sizes_memoryRegion (by decide) (by decide)) fun contract s x deep bounded run inside => ?_
    exact works_opReturnDataCopy contract deep bounded (calcMemSize64_some run).1
      (fits_of_region run inside)
  | sha3 =>
    exact .onRegion (memoryGasSafe_perWord sha3WordGas 1) fun contract s =>
      works_opSha3 contract env
  | pop => exact .plain (fun contract s => works_opPop contract)
  | mload =>
    refine .onMemory memoryGasSafe_pure (sizes_memoryFixed 32 (by decide))
      fun contract s x deep bounded run inside => ?_
    exact works_opMload contract deep bounded (.inr (Fits.of_fixed (by decide) run inside))
  | mstore =>
    refine .onMemory memoryGasSafe_pure (sizes_memoryFixed 32 (by decide))
      fun contract s x deep bounded run inside => ?_
    exact works_opMstore contract deep bounded (Fits.of_fixed (by decide) run inside)
  | mstore8 =>
    refine .onMemory memoryGasSafe_pure (sizes_memoryFixed 1 (by decide))
      fun contract s x deep bounded run inside => ?_
    exact works_opMstore8 contract deep bounded (Fits.of_fixed (by decide) run inside)
  | jump => exact (Sound.plain fun contract s => works_opJump contract).flags _ true _ _ _
  | jumpi => exact (Sound.plain fun contract s => works_opJumpi contract).flags _ true _ _ _
  | jumpdest => exact .plain (fun contract s _ => ⟨rfl, rfl⟩)
  | push1 => exact .plain (fun contract s _ => works_opPush1 contract)
  | pushN n => exact .plain (fun contract s _ => works_makePush contract n)
  | dup n => exact .plain (fun contract s => works_makeDup contract n) (by simp [stackLimit]; omega)
  | swap n => exact .plain (fun contract s => works_makeSwap contract n) (by simp)
  | stop =>
    have works (contract : Contract) (s : Scope B) : Works 0 0 (opStop contract) s := ⟨rfl, rfl⟩
    exact (Sound.plain fun contract s _ => works contract s).flags true _ _ _ _
  | ret =>
    exact (Sound.onRegion memoryGasSafe_pure fun contract s => works_opReturn contract).flags
      true _ _ _ _
  | revert =>
    exact (Sound.onRegion memoryGasSafe_pure fun contract s => works_opReturn contract).flags
      _ _ _ true true
  | reader read gas =>
    have sound (price : UInt64) : Sound (plain (readOp _) price 1 1) :=
      .plain fun contract s => works_readOp contract fun x => (read.simple contract x).calm
    cases gas with
    | constant => exact sound _
    | account => exact (sound _).metering gasSafe_accountCheck rfl
    | slot => exact (sound _).metering gasSafe_gasSLoadEIP2929 rfl
  | selfBalance => exact .plain (fun contract s _ => works_opSelfBalance contract)
  | sstore =>
    exact ((Sound.plain fun contract s => works_opSstore contract).metering storeSafe
      rfl).flags _ _ true _ _
  | log n =>
    exact (Sound.onRegion (memoryGasSafe_makeGasLog n) (fun contract s =>
      works_makeLog contract env n) (by omega) (by omega) (by omega) (by omega)).flags _ _ true _ _
  | selfdestruct gas =>
    have sound {gas : GasFunc B} (safe : GasSafe 1 gas) (price : UInt64)
        : Sound { plain opSuicide price 1 0 with
            dynamicGas := some gas, halts := true, writes := true } :=
      ((Sound.plain fun contract s => works_opSuicide contract).metering safe rfl).flags
        true _ true _ _
    cases gas with
    | legacy => exact sound (gasSafe_gasSelfdestruct env) _
    | eip2929 => exact sound (gasSafe_makeSelfdestructGasFn true) _
    | eip3529 => exact sound (gasSafe_makeSelfdestructGasFn false) _
  | create =>
    exact (Sound.onRegion memoryGasSafe_pure fun contract s =>
      works_opCreate contract calm).flags _ _ true _ true
  | create2 =>
    exact (Sound.onRegion (memoryGasSafe_perWord sha3WordGas 2) fun contract s =>
      works_opCreate2 contract calm).flags _ _ true _ true
  | call _ gas =>
    exact .calls true (fun _ _ _ _ _ => calm_call calm _ _ _ _ _)
      (memoryGasSafe_of_callGas (memoryGasSafe_gasCall env) (by decide) gas)
  | callCode _ gas =>
    exact .calls true (fun _ _ _ _ _ => calm_callCode calm _ _ _ _ _)
      (memoryGasSafe_of_callGas (memoryGasSafe_gasCallCode env) (by decide) gas)
  | delegateCall _ gas =>
    exact .calls false (fun _ _ _ _ _ => calm_delegateCall calm _ _ _ _)
      (memoryGasSafe_of_callGas (memoryGasSafe_gasDelegateCall env) le_rfl gas)
  | staticCall _ gas =>
    exact .calls false (fun _ _ _ _ _ => calm_staticCall calm _ _ _ _)
      (memoryGasSafe_of_callGas (memoryGasSafe_gasDelegateCall env) le_rfl gas)

end GoBinacoin.Vm
