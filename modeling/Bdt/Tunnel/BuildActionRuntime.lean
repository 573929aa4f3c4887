import Bdt.Base.History
import Bdt.Global.Endpoint
import Bdt.Tunnel.BuildAction

/-!
# The runtime of build actions

A model of `BuildActionRuntimeAddBuildingTunnelAction`, `BuildActionRuntimeActiveBuildingTunnel` and
`BuildActionRuntimeOnFinish`, cut at the sections under `buildingTunnelsLock` and at the atomic
operations of the actions. An action is created by the function that adds it.

The reference to the runtime itself and the response of a passive builder are left out: nothing here
depends on them.
-/

namespace Bdt

open Base

/-- `BuildingTunnelMap`, without the links. -/
structure BuildingTunnelMap where
  localEndpoint : BdtEndpoint
  remoteEndpoint : BdtEndpoint
  actived : Bool
  action : Nat
  deriving DecidableEq

def BuildingTunnelMapCompare (left right : BuildingTunnelMap) : Int :=
  let result := BdtEndpointCompare left.localEndpoint right.localEndpoint false
  if result ≠ 0 then result
  else BdtEndpointCompare left.remoteEndpoint right.remoteEndpoint false

/-- Who has a reference to an action: the function that created it, the map of the runtime, the
execution, and the caller of `onBuildingTunnelActive`. -/
inductive ActionHolder where
  | creator
  | runtime
  | execution
  | report
  deriving DecidableEq

/-- An action with its reference count, and those who have taken a reference. -/
structure RuntimeAction where
  action : BuildAction
  refCount : Int := 1
  holders : List ActionHolder := [.creator]
  deriving DecidableEq

namespace RuntimeAction

/-- `BuildActionAddRef`. -/
def addRef (item : RuntimeAction) (holder : ActionHolder) : RuntimeAction :=
  { item with refCount := item.refCount + 1, holders := holder :: item.holders }

/-- `BuildActionRelease`. -/
def release (item : RuntimeAction) (holder : ActionHolder) : RuntimeAction :=
  { item with refCount := item.refCount - 1, holders := item.holders.erase holder }

end RuntimeAction

structure BuildActionRuntime where
  finished : Bool := false
  /-- The nodes are freed when the runtime is finished, and the pointer to them stays. -/
  buildingTunnels : List BuildingTunnelMap := []
  actions : List RuntimeAction := []

inductive RuntimeStep where
  /-- The section of `BuildActionRuntimeAddBuildingTunnelAction`. -/
  | addBuildingTunnelAction (localEndpoint remoteEndpoint : BdtEndpoint) (action : Nat)
      (callbacks : BuildActionCallbacks) (actived : Bool)
  /-- `BuildActionAddRef` after the section. -/
  | addRef (action : Nat)
  /-- `BuildActionExecute`. -/
  | execute (action : Nat) (callbacks : BuildActionCallbacks)
  /-- The reference around the call of `onBuildingTunnelActive`. -/
  | addRefActive (action : Nat)
  /-- `onBuildingTunnelActive`. -/
  | onBuildingTunnelActive (action : Nat)
  | release (action : Nat) (holder : ActionHolder)
  /-- A step of a call of the action. -/
  | run (action : Nat) (step : BuildActionStep)
  /-- The section of `BuildActionRuntimeActiveBuildingTunnel`. -/
  | activeBuildingTunnel (localEndpoint remoteEndpoint : BdtEndpoint) (action : Nat)
  /-- The section of `BuildActionRuntimeOnFinish`. -/
  | onFinish
  /-- A swap of the `BuildActionCancel` in `BuildActionRuntimeOnFinish`. -/
  | cancel (action : Nat) (step : BuildActionStep)
  deriving DecidableEq

inductive RuntimeEntry where
  /-- The action is in the map. -/
  | registered (action : Nat)
  /-- The action is executed. -/
  | executed (action : Nat)
  /-- `onBuildingTunnelActive` is called. -/
  | actived (action : Nat)
  /-- The finish has canceled the action: the last of its swaps is done. -/
  | canceled (action : Nat)
  /-- The finish has released the action. -/
  | released (action : Nat)
  /-- The map is searched after its nodes were freed. -/
  | usedFreed (action : Nat)
  deriving DecidableEq

structure RuntimeResult where
  next : BuildActionRuntime
  entries : List RuntimeEntry := []
  more : List RuntimeStep := []

/-- One of the swaps that `BuildActionCancelImpl` has still to do. -/
def BuildActionStep.isSwap : BuildActionStep → Bool
  | .cancelOld _ | .settleExecuted _ => true
  | _ => false

namespace BuildActionRuntime

/-- Change one action. -/
def update (runtime : BuildActionRuntime) (action : Nat) (item : RuntimeAction) :
    BuildActionRuntime :=
  { runtime with actions := runtime.actions.set action item }

/-- A step of an action. The end of `BuildActionFinishExecute` is a release. -/
def performAction (item : RuntimeAction) (step : BuildActionStep) : RuntimeAction :=
  let next := { item with action := (item.action.perform step).next }
  if step = .finishExecute then next.release .execution else next

def perform (runtime : BuildActionRuntime) : RuntimeStep → Option RuntimeResult
  | .addBuildingTunnelAction localEndpoint remoteEndpoint action callbacks actived => some <|
      if runtime.finished then { next := runtime }
      else
        match addIfNotMember BuildingTunnelMapCompare runtime.buildingTunnels
            { localEndpoint, remoteEndpoint, actived, action } with
        | (_, some _) => { next := runtime }
        | (buildingTunnels, none) =>
          { next := { runtime with buildingTunnels }
            entries := [.registered action]
            more := [.addRef action, .execute action callbacks] ++
              if actived then [.addRefActive action] else [] }
  | .addRef action => (runtime.actions[action]?).map fun item =>
    { next := runtime.update action (item.addRef .runtime) }
  | .execute action callbacks => (runtime.actions[action]?).map fun item =>
    -- without the swap the reference is released again
    if item.action.state = .none then
      let begun := (item.action.perform (.beginExecute callbacks .none)).next
      { next := runtime.update action ({ item with action := begun }.addRef .execution)
        entries := [.executed action]
        more := [.run action .endExecute] }
    else { next := runtime }
  | .addRefActive action => (runtime.actions[action]?).map fun item =>
    { next := runtime.update action (item.addRef .report)
      more := [.onBuildingTunnelActive action, .release action .report] }
  | .onBuildingTunnelActive action => some { next := runtime, entries := [.actived action] }
  | .release action holder => (runtime.actions[action]?).map fun item =>
    { next := runtime.update action (item.release holder)
      entries := if holder = .runtime then [.released action] else [] }
  | .run action step => (runtime.actions[action]?).map fun item =>
    { next := runtime.update action (performAction item step)
      more := (item.action.perform step).more.map (.run action) }
  | .activeBuildingTunnel localEndpoint remoteEndpoint action => some <|
      if runtime.finished ∧ runtime.buildingTunnels ≠ [] then
        { next := runtime, entries := [.usedFreed action] }
      else
        let toFind : BuildingTunnelMap := { localEndpoint, remoteEndpoint, actived := false, action }
        match findMember BuildingTunnelMapCompare runtime.buildingTunnels toFind with
        | none => { next := runtime }
        | some found =>
          if !found.actived ∧ action = found.action then
            { next :=
                { runtime with
                  buildingTunnels :=
                    updateMember BuildingTunnelMapCompare runtime.buildingTunnels toFind
                      fun node => { node with actived := true } }
              more := [.onBuildingTunnelActive action] }
          else { next := runtime }
  | .onFinish => some <|
      if runtime.finished then { next := runtime }
      else
        { next := { runtime with finished := true }
          more := runtime.buildingTunnels.flatMap fun node =>
            [.cancel node.action (.cancel .none), .release node.action .runtime] }
  | .cancel action step => (runtime.actions[action]?).map fun item =>
    let more := (item.action.perform step).more
    if more.any (·.isSwap) then
      { next := runtime.update action (performAction item step), more := more.map (.cancel action) }
    else
      { next := runtime.update action (performAction item step)
        entries := [.canceled action]
        more := more.map (.run action) }

end BuildActionRuntime

/-- A runtime, the calls in flight, and what they did. -/
structure RuntimeRun where
  runtime : BuildActionRuntime := {}
  calls : List (List RuntimeStep) := []
  history : List RuntimeEntry := []

inductive RuntimeEvent where
  /-- An action is created and added. Its creator releases it at some time after that. -/
  | add (localEndpoint remoteEndpoint : BdtEndpoint) (onCanceled : Bool)
      (callbacks : BuildActionCallbacks) (actived : Bool)
  /-- `BuildActionRuntimeActiveBuildingTunnel`. -/
  | active (localEndpoint remoteEndpoint : BdtEndpoint) (action : Nat)
  /-- `BuildActionRuntimeOnFinish`. -/
  | finish
  /-- `BuildActionResolve`, `BuildActionReject` or `BuildActionCancel`. -/
  | settle (action : Nat) (settle : Settle)
  /-- One of the calls goes on. -/
  | step (i : Nat)
  deriving DecidableEq

/-- How the call to settle an action begins. -/
def Settle.step : Settle → BuildActionStep
  | .resolve => .resolve
  | .reject => .reject
  | .cancel => .cancel .none

namespace RuntimeRun

def handle (run : RuntimeRun) : RuntimeEvent → Option RuntimeRun
  | .add localEndpoint remoteEndpoint onCanceled callbacks actived =>
    let action := run.runtime.actions.length
    some
      { run with
        runtime := { run.runtime with
          actions := run.runtime.actions ++ [{ action := { onCanceled } }] }
        calls := run.calls ++
          [[.addBuildingTunnelAction localEndpoint remoteEndpoint action callbacks actived,
            .release action .creator]] }
  | .active localEndpoint remoteEndpoint action =>
    if action < run.runtime.actions.length then
      some { run with
        calls := run.calls ++ [[.activeBuildingTunnel localEndpoint remoteEndpoint action]] }
    else none
  | .finish => some { run with calls := run.calls ++ [[.onFinish]] }
  | .settle action settle =>
    if action < run.runtime.actions.length then
      some { run with calls := run.calls ++ [[.run action settle.step]] }
    else none
  | .step i =>
    match run.calls[i]? with
    | some (step :: rest) => (run.runtime.perform step).map fun result =>
      { runtime := result.next
        calls := advanceCall run.calls i result.more rest
        history := run.history ++ result.entries }
    | _ => none

/-! ## What a runtime promises -/

/-- `BUILD_ACTION_STATE_RESOLVED`, `BUILD_ACTION_STATE_REJECTED` or `BUILD_ACTION_STATE_CANCELED`. -/
def isFinal : BuildActionState → Bool
  | .resolved | .rejected | .canceled => true
  | _ => false

/-- Nothing is done with an action that the finish has canceled. -/
def NotAfter (action : Nat) (front : List RuntimeEntry) (entry : RuntimeEntry) : Prop :=
  entry = .executed action ∨ entry = .actived action → .canceled action ∉ front

/-- A step of the finish for this action. -/
def ofFinish (action : Nat) : RuntimeStep → Bool
  | .cancel other _ => other = action
  | .release other holder => other = action && holder = .runtime
  | _ => false

/-- What a runtime does with one action. -/
structure Finishes (action : Nat) (run : RuntimeRun) : Prop where
  once : run.history.count (.executed action) ≤ 1
  canceledOnce : run.history.count (.canceled action) ≤ 1
  releasedOnce : run.history.count (.released action) ≤ 1
  /-- When the finish has gone through the map, an action of the map is canceled and released. -/
  complete : run.runtime.finished = true → (∀ step ∈ run.calls.flatten, ofFinish action step = false) →
    .registered action ∈ run.history →
    .canceled action ∈ run.history ∧ .released action ∈ run.history
  /-- An action that is canceled was settled, now or before. -/
  settled : .canceled action ∈ run.history → ∀ item, run.runtime.actions[action]? = some item →
    isFinal item.action.state = true
  after : Justified (NotAfter action) run.history
  /-- What is found in freed nodes may be anything. -/
  safe : .usedFreed action ∉ run.history
  counted : ∀ item, run.runtime.actions[action]? = some item →
    (item.holders.length : Int) ≤ item.refCount

/-- The finish releases an action for the map only when the reference of the map was taken, and does
not come to the last swap of its cancel while the action is executing. The action is not reported
active when the finish has canceled it, and not looked for in a map whose nodes were freed. -/
def InTurn (action : Nat) (run : RuntimeRun) : RuntimeEvent → Prop
  | .step i => ∀ step rest, run.calls[i]? = some (step :: rest) →
      (∀ item, run.runtime.actions[action]? = some item →
        (step = .release action .runtime → .runtime ∈ item.holders) ∧
          (step = .cancel action (.settleExecuted .cancel) → item.action.state ≠ .executing)) ∧
        (step = .onBuildingTunnelActive action → .canceled action ∉ run.history) ∧
        ∀ localEndpoint remoteEndpoint,
          step = .activeBuildingTunnel localEndpoint remoteEndpoint action →
          ¬ (run.runtime.finished = true ∧ run.runtime.buildingTunnels ≠ [])
  | _ => True

end RuntimeRun

end Bdt
