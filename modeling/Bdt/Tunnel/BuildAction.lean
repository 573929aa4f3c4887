import Bdt.Base.Calls

/-!
# Build actions

A model of `TunnelBuildAction.imp.inl`: `BuildActionBeginExecute`, `BuildActionCancelImpl`,
`BuildActionResolve` and `BuildActionReject` of one action. The calls run in several threads, or in
the execute function of the action, so they are cut at their atomic operations.

The action stays allocated here. Its user data and its name make no difference to its state and are
left out.
-/

namespace Bdt

open Base

/-- `BUILD_ACTION_STATE_*`. -/
inductive BuildActionState where
  | none
  | bound
  | executing
  | executed
  | resolved
  | rejected
  | canceled
  deriving DecidableEq

/-- `BuildActionResolve`, `BuildActionReject` and `BuildActionCancel`, and their handlers. -/
inductive Settle where
  | resolve
  | reject
  | cancel
  deriving DecidableEq

namespace Settle

/-- What the call swaps for `BUILD_ACTION_STATE_EXECUTED`. -/
def swapped : Settle → BuildActionState
  | resolve => .resolved
  | reject => .resolved
  | cancel => .canceled

/-- The state that is called after the call. -/
def final : Settle → BuildActionState
  | resolve => .resolved
  | reject => .rejected
  | cancel => .canceled

end Settle

/-- Which of the two handlers are set: the bits of `flags`. -/
structure BuildActionCallbacks where
  resolve : Bool
  reject : Bool
  deriving DecidableEq

structure BuildAction where
  state : BuildActionState := .none
  /-- `resolve` is not the null pointer. -/
  resolve : Bool := false
  reject : Bool := false
  onCanceled : Bool
  deriving DecidableEq

inductive BuildActionStep where
  /-- The swap of `ListBuildActionAdd`. -/
  | listBuildActionAdd
  /-- `BuildActionBeginExecute`. -/
  | beginExecute (callbacks : BuildActionCallbacks) (oldState : BuildActionState)
  /-- Its second half, after the call of `execute`. -/
  | endExecute
  /-- `BuildActionResolve`. -/
  | resolve
  /-- `BuildActionReject`. -/
  | reject
  /-- `BuildActionCancelImpl`. -/
  | cancel (oldState : BuildActionState)
  /-- Its second swap. -/
  | cancelOld (oldState : BuildActionState)
  /-- The last swap of the three. -/
  | settleExecuted (settle : Settle)
  /-- The handler is called if there is one. -/
  | handle (settle : Settle)
  /-- `BuildActionFinishExecute`. -/
  | finishExecute
  deriving DecidableEq

inductive BuildActionEntry where
  /-- The action is executed. -/
  | begun
  /-- A settling call comes while the action is executing or executed. -/
  | asked
  /-- A settling call takes effect. -/
  | settled (settle : Settle)
  /-- The place of a handler is reached, and the handler is called or there is none. -/
  | handled (settle : Settle) (called : Bool)
  /-- A settling call ends without effect while the action is executing. -/
  | missed
  /-- `BuildActionFinishExecute` has run. -/
  | finished
  deriving DecidableEq

/-- What a step does, and what it leaves to be done. -/
structure BuildActionResult where
  next : BuildAction
  entries : List BuildActionEntry := []
  more : List BuildActionStep := []

namespace BuildAction

def hasHandler (action : BuildAction) : Settle → Bool
  | .resolve => action.resolve
  | .reject => action.reject
  | .cancel => action.onCanceled

/-- `BuildActionSetResolveFunction` and `BuildActionSetRejectFunction`, or the two for actions. -/
def setCallbacks (action : BuildAction) (callbacks : BuildActionCallbacks) : BuildAction :=
  { action with
    resolve := action.resolve || callbacks.resolve
    reject := action.reject || callbacks.reject }

/-- The first swap of a settling call. All three put `BUILD_ACTION_STATE_CANCELED`. -/
def settleExecuting (action : BuildAction) (settle : Settle) (behind : BuildActionStep) :
    BuildActionResult :=
  if action.state = .executing then
    { next := { action with state := .canceled }, entries := [.asked, .settled settle] }
  else
    { next := action
      entries := if action.state = .executed then [.asked] else []
      more := [behind] }

/-- What `BuildActionBeginExecute` does for the state that it finds instead of
`BUILD_ACTION_STATE_EXECUTING`. -/
def deferred : BuildActionState → List BuildActionStep
  | .resolved => [.handle .resolve, .finishExecute]
  | .rejected => [.handle .reject, .finishExecute]
  | .canceled => [.handle .cancel, .finishExecute]
  | _ => [.finishExecute]

def perform (action : BuildAction) : BuildActionStep → BuildActionResult
  | .listBuildActionAdd =>
    { next := if action.state = .none then { action with state := .bound } else action }
  | .beginExecute callbacks oldState =>
    if action.state = oldState then
      -- the handlers are set after the swap, and read by nobody before `endExecute`
      { next := setCallbacks { action with state := .executing } callbacks
        entries := [.begun]
        more := [.endExecute] }
    else { next := action }
  | .endExecute =>
    if action.state = .executing then { next := { action with state := .executed } }
    else { next := action, more := deferred action.state }
  | .resolve => action.settleExecuting .resolve (.settleExecuted .resolve)
  | .reject => action.settleExecuting .reject (.settleExecuted .reject)
  | .cancel oldState => action.settleExecuting .cancel (.cancelOld oldState)
  | .cancelOld oldState =>
    if action.state = oldState then
      { next := { action with state := .canceled }, more := [.handle .cancel] }
    else { next := action, more := [.settleExecuted .cancel] }
  | .settleExecuted settle =>
    if action.state = .executed then
      { next := { action with state := settle.swapped }
        entries := [.settled settle]
        more := [.handle settle, .finishExecute] }
    else { next := action, entries := if action.state = .executing then [.missed] else [] }
  | .handle settle => { next := action, entries := [.handled settle (action.hasHandler settle)] }
  | .finishExecute => { next := action, entries := [.finished] }

end BuildAction

/-- `BuildActionExecute` and `BuildActionCancel` pass `BUILD_ACTION_STATE_NONE`, a list of actions
passes `BUILD_ACTION_STATE_BOUND`. -/
def BuildActionStep.isEntry : BuildActionStep → Bool
  | .listBuildActionAdd | .resolve | .reject => true
  | .beginExecute _ oldState | .cancel oldState => oldState = .none || oldState = .bound
  | _ => false

/-- An action, the calls in flight, and what they did. -/
structure BuildRun where
  action : BuildAction
  calls : List (List BuildActionStep) := []
  history : List BuildActionEntry := []

inductive BuildEvent where
  /-- A function is called, by another thread or by `execute` or a handler of the action. -/
  | call (step : BuildActionStep)
  /-- One of the calls goes on. -/
  | step (i : Nat)
  deriving DecidableEq

namespace BuildRun

/-- After `BuildActionInit`. -/
def start (onCanceled : Bool) : BuildRun where
  action := { onCanceled }

def handle (run : BuildRun) : BuildEvent → Option BuildRun
  | .call step => if step.isEntry then some { run with calls := run.calls ++ [[step]] } else none
  | .step i =>
    match run.calls[i]? with
    | some (step :: rest) =>
      let result := run.action.perform step
      some
        { action := result.next
          calls := advanceCall run.calls i result.more rest
          history := run.history ++ result.entries }
    | _ => none

/-! ## What an action promises -/

/-- How often the place of a handler was reached. -/
def handledCount (history : List BuildActionEntry) (settle : Settle) : Nat :=
  history.countP fun entry => entry = .handled settle true ∨ entry = .handled settle false

/-- An action is settled once. -/
structure SettlesOnce (run : BuildRun) : Prop where
  /-- The state is that of the call that settled the action, so there is one such call at most. -/
  final : ∀ settle, .settled settle ∈ run.history → run.action.state = settle.final
  /-- An action that was executed calls the handler of that call only. -/
  handler : .begun ∈ run.history → ∀ settle called, .handled settle called ∈ run.history →
    .settled settle ∈ run.history
  once : ∀ settle, handledCount run.history settle ≤ 1
  finish : run.history.count .finished ≤ 1
  /-- No settling call of an action that is executing is lost. -/
  heard : .missed ∉ run.history
  /-- When all calls have returned and one of them was to settle the action, one did, its handler
  was called if there is one, and `BuildActionFinishExecute` has run. -/
  complete : (∀ steps ∈ run.calls, steps = []) → .asked ∈ run.history →
    ∃ settle, .settled settle ∈ run.history ∧
      .handled settle (run.action.hasHandler settle) ∈ run.history ∧ .finished ∈ run.history

/-- No `BuildActionResolve` and no `BuildActionReject` comes while the action is executing, no settling
call makes its last swap then, and no `BuildActionReject` takes effect afterwards. -/
def InTime (run : BuildRun) : BuildEvent → Prop
  | .call _ => True
  | .step i => ∀ step rest, run.calls[i]? = some (step :: rest) →
      (step = .resolve ∨ step = .reject → run.action.state ≠ .executing) ∧
        (∀ settle, step = .settleExecuted settle → run.action.state ≠ .executing) ∧
          (step = .settleExecuted .reject → run.action.state ≠ .executed)

end BuildRun

end Bdt
