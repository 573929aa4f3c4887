import Bdt.Base.Transition
import Bdt.Tunnel.BuildAction

/-!
# Lists of build actions

A model of `ListBuildAction` in `TunnelBuildAction.imp.inl`. The execution of a list goes through its
actions one after the other, and the actions resolve and reject in any order: before, in and after
the execution of another one. Each of these calls runs to its end, with the handlers that it calls.
-/

namespace Bdt

open Base

/-! ## Calls that nothing interrupts -/

namespace BuildAction

/-- What is to be done, one step after the other. -/
def alone : Nat → BuildAction → List BuildActionStep → BuildAction × List BuildActionEntry
  | 0, action, _ => (action, [])
  | _ + 1, action, [] => (action, [])
  | fuel + 1, action, step :: rest =>
    let result := action.perform step
    let (next, entries) := alone fuel result.next (result.more ++ rest)
    (next, result.entries ++ entries)

/-- The handler whose place was reached. -/
def handlerOf (entries : List BuildActionEntry) : Option Settle :=
  entries.findSome? fun
    | .handled settle _ => some settle
    | _ => none

/-- A call and its handler. No call has more than five steps. -/
def callAlone (action : BuildAction) (step : BuildActionStep) : BuildAction × Option Settle :=
  let (next, entries) := action.alone 5 [step]
  (next, handlerOf entries)

end BuildAction

/-! ## The model -/

/-- `ListBuildActionAllCreate` or `ListBuildActionRaceCreate`. -/
inductive ListKind where
  | all
  | race
  deriving DecidableEq

/-- An action of a list resolves or rejects. -/
inductive Answer where
  | resolve
  | reject
  deriving DecidableEq

namespace Answer

def step : Answer → BuildActionStep
  | resolve => .resolve
  | reject => .reject

def settle : Answer → Settle
  | resolve => .resolve
  | reject => .reject

def other : Answer → Answer
  | resolve => .reject
  | reject => .resolve

end Answer

/-- The answer of one action that settles a list. -/
def ListKind.decisive : ListKind → Answer
  | all => .reject
  | race => .resolve

/-- `BuildActionListItem`. -/
structure ListItem where
  action : BuildAction
  /-- The first answer of the action while it is executing or executed. -/
  answer : Option Answer := none
  /-- It came while the action was executing. -/
  inside : Bool := false
  deriving DecidableEq

/-- An action takes answers. -/
def ListItem.answers (item : ListItem) : Bool :=
  item.action.state = .executing || item.action.state = .executed

/-- Where the execution of a list is. -/
inductive ListControl where
  | start
  /-- The loop comes to this item. -/
  | item (i : Nat)
  /-- The execute function of this item runs. -/
  | execute (i : Nat)
  /-- `ListBuildActionExecute` has returned. -/
  | finish
  | done
  /-- The assertion has failed. -/
  | failed
  deriving DecidableEq

structure ListBuildAction where
  kind : ListKind
  base : BuildAction
  actions : List ListItem
  control : ListControl := .start
  /-- The handlers of the list whose places were reached. -/
  handlers : List Settle := []
  deriving DecidableEq

namespace ListBuildAction

/-- After `ListBuildActionAdd` for each action, and the first swap of the execution of the list. -/
def create (kind : ListKind) (onCanceled : List Bool) : ListBuildAction where
  kind := kind
  base := { state := .executing, resolve := true, reject := true, onCanceled := true }
  actions := onCanceled.map fun onCanceled => { action := { state := .bound, onCanceled } }

variable (list : ListBuildAction)

/-- The loop of `ListBuildActionOnCanceled`, `ListBuildActionAllOneReject` and
`ListBuildActionRaceOneResolve`. -/
def cancelActions : ListBuildAction :=
  { list with actions := list.actions.map fun item =>
      { item with action := (item.action.callAlone (.cancel .bound)).1 } }

/-- A call for the list itself, which calls a handler of the list or none. -/
def callBase (step : BuildActionStep) : ListBuildAction :=
  let (base, handler) := list.base.callAlone step
  let next := { list with base, handlers := list.handlers ++ handler.toList }
  -- `ListBuildActionOnCanceled`
  if handler = some .cancel then next.cancelActions else next

def allOneResolve : ListBuildAction :=
  if list.actions.all fun item => item.action.state = .resolved then list.callBase .resolve else list

def allOneReject : ListBuildAction :=
  list.cancelActions.callBase .reject

def raceOneResolve : ListBuildAction :=
  list.cancelActions.callBase .resolve

def raceOneReject : ListBuildAction :=
  if list.actions.all fun item => item.action.state = .rejected then list.callBase .reject else list

/-- The handlers of the actions of a list. -/
def handler : Option Settle → ListBuildAction
  | some .resolve =>
    match list.kind with
    | .all => list.allOneResolve
    | .race => list.raceOneResolve
  | some .reject =>
    match list.kind with
    | .all => list.allOneReject
    | .race => list.raceOneReject
  | _ => list

/-- `BuildActionBeginExecute` of an action up to the call of `execute`. The assertion is that it finds
the action bound. -/
def beginItem (i : Nat) (item : ListItem) : ListBuildAction :=
  if item.action.state = .bound then
    let callbacks : BuildActionCallbacks := { resolve := true, reject := true }
    let action := (item.action.perform (.beginExecute callbacks .bound)).next
    { list with actions := list.actions.set i { item with action }, control := .execute i }
  else { list with control := .failed }

/-- The rest of `BuildActionBeginExecute` of an action. -/
def endItem (i : Nat) (item : ListItem) : ListBuildAction :=
  let (action, called) := item.action.callAlone .endExecute
  let next := { list with actions := list.actions.set i { item with action }, control := .item (i + 1) }
  next.handler called

/-- The execution of the list goes on. -/
def advance : Option ListBuildAction :=
  match list.control with
  | .start => some <|
      if list.actions = [] then { list.callBase .resolve with control := .finish }
      else { list with control := .item 0 }
  | .item i => some <|
      match list.actions[i]? with
      | none => { list with control := .finish }
      | some item => list.beginItem i item
  | .execute i => (list.actions[i]?).map fun item => list.endItem i item
  | .finish => some { list.callBase .endExecute with control := .done }
  | .done | .failed => none

/-- `BuildActionResolve` or `BuildActionReject` of an action. -/
def settleItem (i : Nat) (item : ListItem) (answer : Answer) : ListBuildAction :=
  let (action, called) := item.action.callAlone answer.step
  let settled : ListItem :=
    if item.answers then
      { action, answer := some answer, inside := item.action.state = .executing }
    else { item with action }
  ({ list with actions := list.actions.set i settled } : ListBuildAction).handler called

end ListBuildAction

inductive ListEvent where
  /-- The thread that executes the list goes on. -/
  | advance
  /-- An action answers. -/
  | answer (i : Nat) (answer : Answer)
  deriving DecidableEq

namespace ListBuildAction

variable (list : ListBuildAction)

def handle : ListEvent → Option ListBuildAction
  | .advance => list.advance
  | .answer i answer => (list.actions[i]?).map fun item => list.settleItem i item answer

/-! ## What a list promises -/

/-- The execution has come to its end, or to a failed assertion. -/
def returned : Bool :=
  list.control = .done || list.control = .failed

/-- One action has given the answer that settles the list. -/
def Decided : Prop :=
  ∃ item ∈ list.actions, item.answer = some list.kind.decisive

/-- All actions have given the other answer. -/
def Unanimous : Prop :=
  ∀ item ∈ list.actions, item.answer = some list.kind.decisive.other

/-- What the answers make of a list. -/
structure Combines (list : ListBuildAction) : Prop where
  started : list.control ≠ .failed
  decided : list.control = .done → (list.handlers = [list.kind.decisive.settle] ↔ list.Decided)
  unanimous : list.control = .done →
    (list.handlers = [list.kind.decisive.other.settle] ↔ list.Unanimous)
  pending : list.control = .done → ¬ list.Decided → ¬ list.Unanimous → list.handlers = []
  /-- The others are canceled. -/
  canceled : list.control = .done → list.Decided → ∀ item ∈ list.actions,
    item.action.state = .canceled ∨ item.answer.isSome = true

/-- The answer that settles a list comes after its execution. The last of the other answers does too,
and settles a list only if it asks for all its actions, none of which has answered while it was
executing. -/
def InOrder : ListEvent → Prop
  | .advance => True
  | .answer i answer => ∀ item, list.actions[i]? = some item → item.answers = true →
      (answer = list.kind.decisive → list.control = .done) ∧
        (answer = list.kind.decisive.other →
          (∀ k other, k ≠ i → list.actions[k]? = some other → other.answer = some answer) →
          list.kind = .all ∧ list.control = .done ∧ ∀ other ∈ list.actions, other.inside = false)

end ListBuildAction

end Bdt
