import GoBinacoin.Vm.Rewind

/-! The entry points of the EVM, and what every execution from them does. -/

namespace GoBinacoin.Vm

open Program State

variable {B : Backend}

/-- `EVM.Call` to `EVM.Create2` with their arguments. Values are amounts, so not negative. -/
inductive Execution where
  | call (caller addr : Address) (input : Bytes) (gas : UInt64) (value : Nat)
  | callCode (caller addr : Address) (input : Bytes) (gas : UInt64) (value : Nat)
  | delegateCall (parent : Contract) (addr : Address) (input : Bytes) (gas : UInt64)
  | staticCall (caller addr : Address) (input : Bytes) (gas : UInt64)
  | create (caller : Address) (code : Bytes) (gas : UInt64) (value : Nat)
  | create2 (caller : Address) (code : Bytes) (gas : UInt64) (endowment : Nat) (salt : Word)

/-- The gas that is left, and the error. -/
structure Outcome where
  gas : UInt64
  err : Option VMError

def CallResult.outcome (result : CallResult) : Outcome :=
  {
    gas := result.gas
    err := result.err
  }

def CreateResult.outcome (result : CreateResult) : Outcome :=
  {
    gas := result.gas
    err := result.err
  }

namespace Execution

def caller : Execution → Address
  | .call caller _ _ _ _ => caller
  | .callCode caller _ _ _ _ => caller
  | .delegateCall parent _ _ _ => parent.self
  | .staticCall caller _ _ _ => caller
  | .create caller _ _ _ => caller
  | .create2 caller _ _ _ _ => caller

def gas : Execution → UInt64
  | .call _ _ _ gas _ => gas
  | .callCode _ _ _ gas _ => gas
  | .delegateCall _ _ _ gas => gas
  | .staticCall _ _ _ gas => gas
  | .create _ _ gas _ => gas
  | .create2 _ _ gas _ _ => gas

/-- The account whose code runs as itself, if there is one from the start. -/
def callee : Execution → Option Address
  | .call _ addr _ _ _ => some addr
  | .staticCall _ addr _ _ => some addr
  | _ => none

def run (env : Env) : Execution → Evm B Outcome
  | .call caller addr input gas value => do
      let result ← Vm.call env (interpreter env) caller addr input gas value
      return result.outcome
  | .callCode caller addr input gas value => do
      let result ← Vm.callCode env (interpreter env) caller addr input gas value
      return result.outcome
  | .delegateCall parent addr input gas => do
      let result ← Vm.delegateCall env (interpreter env) parent addr input gas
      return result.outcome
  | .staticCall caller addr input gas => do
      let result ← Vm.staticCall env (interpreter env) caller addr input gas
      return result.outcome
  | .create caller code gas value => do
      let result ← Vm.create env (interpreter env) caller code gas value
      return result.outcome
  | .create2 caller code gas endowment salt => do
      let result ← Vm.create2 env (interpreter env) caller code gas endowment salt
      return result.outcome

/-- All four calls and both creations. -/
theorem tracks {env : Env} {listing : Prop} (e : Execution) {m : Machine B}
    (writable : Writable env m)
    (admits : ∀ addr, e.callee = some addr → Admits env listing e.caller addr m)
    : Abides env listing e.caller (e.run env) m := by
  have conducts := conducts_runAt (B := B) env listing (callCreateDepth + 1)
  cases e with
  | call caller addr input gas value =>
    exact (tracks_call conducts (admits addr rfl) (.inr ⟨writable, Int.natCast_nonneg _⟩)).bind
      fun _ _ _ _ => .pure trivial
  | callCode caller addr input gas value =>
    exact (tracks_callCode conducts).bind fun _ _ _ _ => .pure trivial
  | delegateCall parent addr input gas =>
    exact (tracks_delegateCall conducts parent).bind fun _ _ _ _ => .pure trivial
  | staticCall caller addr input gas =>
    exact (tracks_staticCall conducts (admits addr rfl)).bind fun _ _ _ _ => .pure trivial
  | create caller code gas value =>
    exact (tracks_create conducts writable (Int.natCast_nonneg _) code).bind
      fun _ _ _ _ => .pure trivial
  | create2 caller code gas endowment salt =>
    exact (tracks_createAt conducts writable (Int.natCast_nonneg _) code).bind
      fun _ _ _ _ => .pure trivial

end Execution

end GoBinacoin.Vm
