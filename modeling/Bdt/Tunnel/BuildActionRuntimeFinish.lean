import Bdt.Base.Transition
import Bdt.Tunnel.BuildActionRuntime

/-!
# The finish of a runtime

`finishes_iff`: an action of a runtime is executed once at most, canceled and released once by the
finish, not executed and not reported active after that, and has as many references as holders, in
every run in which the finish releases it after the reference of the map was taken, does not come to
the last swap of its cancel while the action is executing, and in which the action is neither reported
active nor looked for after the finish, and in no other run.
-/

namespace Bdt

open Base List Option

/-! ## One action -/

namespace BuildAction

variable {action : BuildAction} {step : BuildActionStep}

/-- A step of an action of a runtime, its execution apart. -/
def plain : BuildActionStep → Bool
  | .listBuildActionAdd | .beginExecute _ _ => false
  | .cancel oldState | .cancelOld oldState => oldState = .none
  | _ => true

/-- The end of an execution to come. -/
def ending : BuildActionStep → Int
  | .endExecute | .finishExecute => 1
  | _ => 0

/-- The action is executed and not settled. -/
def idle (action : BuildAction) : Int :=
  if action.state = .executed then 1 else 0

/-- A step ends an execution only with `BuildActionFinishExecute`. -/
theorem ending_perform (action : BuildAction) (h : plain step = true) :
    (action.perform step).next.idle + ((action.perform step).more.map ending).sum +
      (if step = .finishExecute then 1 else 0) = action.idle + ending step := by
  obtain ⟨state, resolve, reject, onCanceled⟩ := action
  cases step with
  | listBuildActionAdd | beginExecute => cases h
  | endExecute | resolve | reject | finishExecute => cases state <;> rfl
  | handle => cases state <;> rfl
  | settleExecuted settle => cases state <;> cases settle <;> rfl
  | cancel | cancelOld =>
    obtain rfl := of_decide_eq_true h
    cases state <;> rfl

/-- What a step does to the state. -/
structure Proceeds (action : BuildAction) (result : BuildActionResult) : Prop where
  fresh : result.next.state = .none → action.state = .none
  bound : action.state ≠ .bound → result.next.state ≠ .bound
  final : RuntimeRun.isFinal action.state = true → RuntimeRun.isFinal result.next.state = true
  more : ∀ other ∈ result.more, plain other = true

theorem proceeds_perform (action : BuildAction) (h : plain step = true) :
    action.Proceeds (action.perform step) := by
  obtain ⟨state, resolve, reject, onCanceled⟩ := action
  cases step with
  | listBuildActionAdd | beginExecute => cases h
  | endExecute | resolve | reject | finishExecute =>
    cases state <;> exact ⟨by simp [perform, settleExecuting], by simp [perform, settleExecuting],
      by simp [perform, settleExecuting, RuntimeRun.isFinal],
      by simp [perform, settleExecuting, deferred, plain]⟩
  | handle => exact ⟨id, id, id, forall_mem_nil _⟩
  | settleExecuted settle =>
    cases state <;> cases settle <;> exact ⟨by simp [perform, Settle.swapped],
      by simp [perform, Settle.swapped], by simp [perform, Settle.swapped, RuntimeRun.isFinal],
      by simp [perform, plain]⟩
  | cancel | cancelOld =>
    obtain rfl := of_decide_eq_true h
    cases state <;> exact ⟨by simp [perform, settleExecuting], by simp [perform, settleExecuting],
      by simp [perform, settleExecuting, RuntimeRun.isFinal],
      by simp [perform, settleExecuting, plain]⟩

/-- The swaps of `BuildActionCancel`. -/
def canceling : BuildActionStep → Bool
  | .cancel oldState | .cancelOld oldState => oldState = .none
  | .settleExecuted settle => settle = .cancel
  | _ => false

theorem plain_of_canceling (h : canceling step = true) : plain step = true := by
  cases step <;> first | exact h | cases h | rfl

theorem canceling_more (h : canceling step = true)
    (hswap : (action.perform step).more.any (·.isSwap) = true) :
    ∃ other, (action.perform step).more = [other] ∧ canceling other = true ∧
      (action.perform step).next.state = action.state ∧
      (∀ settle, other = .settleExecuted settle → action.state ≠ .none) := by
  obtain ⟨state, resolve, reject, onCanceled⟩ := action
  cases step with
  | listBuildActionAdd | beginExecute => cases h
  | endExecute | resolve | reject | finishExecute | handle => cases h
  | settleExecuted =>
    cases state <;> cases hswap
  | cancel =>
    obtain rfl := of_decide_eq_true h
    cases state <;> first | exact ⟨.cancelOld .none, rfl, rfl, rfl, nofun⟩ | cases hswap
  | cancelOld =>
    obtain rfl := of_decide_eq_true h
    cases state <;>
      first | exact ⟨.settleExecuted .cancel, rfl, rfl, rfl, fun _ _ => nofun⟩ | cases hswap

/-- The last swap of a cancel leaves an action that is settled, unless it is executing. -/
theorem final_of_canceling (h : canceling step = true)
    (hswap : (action.perform step).more.any (·.isSwap) = false) (hbound : action.state ≠ .bound)
    (hlast : step = .settleExecuted .cancel → action.state ≠ .executing ∧ action.state ≠ .none) :
    RuntimeRun.isFinal (action.perform step).next.state = true := by
  obtain ⟨state, resolve, reject, onCanceled⟩ := action
  cases step with
  | listBuildActionAdd | beginExecute => cases h
  | endExecute | resolve | reject | finishExecute | handle => cases h
  | settleExecuted =>
    obtain rfl := of_decide_eq_true h
    have hne := hlast rfl
    cases state <;>
      first | rfl | exact absurd rfl hbound | exact absurd rfl hne.1 | exact absurd rfl hne.2
  | cancel | cancelOld =>
    obtain rfl := of_decide_eq_true h
    cases state <;> first | rfl | cases hswap

end BuildAction

namespace BuildActionRuntime

variable {a : Nat} {runtime : BuildActionRuntime} {step : RuntimeStep} {result : RuntimeResult}
  {item : RuntimeAction} {holder : ActionHolder}

/-! ## What is counted for one action -/

/-- A step of this action counts 1. -/
def mine (a b : Nat) : Int :=
  if b = a then 1 else 0

def adding (a : Nat) : RuntimeStep → Int
  | .addBuildingTunnelAction _ _ b _ _ => mine a b
  | _ => 0

def referencing (a : Nat) : RuntimeStep → Int
  | .addRef b => mine a b
  | _ => 0

def cancels (a : Nat) : RuntimeStep → Int
  | .cancel b _ => mine a b
  | _ => 0

def releasing (a : Nat) (holder : ActionHolder) : RuntimeStep → Int
  | .release b other => if other = holder then mine a b else 0
  | _ => 0

def ends (a : Nat) : RuntimeStep → Int
  | .run b step => mine a b * BuildAction.ending step
  | _ => 0

/-- How many references a holder has taken. -/
def heldBy (runtime : BuildActionRuntime) (a : Nat) (holder : ActionHolder) : Int :=
  (runtime.actions[a]?).elim 0 fun item => item.holders.count holder

/-- An executed action that is not settled counts 1. -/
def idle (runtime : BuildActionRuntime) (a : Nat) : Int :=
  (runtime.actions[a]?).elim 0 fun item => item.action.idle

/-- An action that nothing was done with counts 1. -/
def fresh (runtime : BuildActionRuntime) (a : Nat) : Int :=
  (runtime.actions[a]?).elim 0 fun item => if item.action.state = .none then 1 else 0

/-- How often an action is in the map. -/
def mapped (runtime : BuildActionRuntime) (a : Nat) : Int :=
  (runtime.buildingTunnels.map (·.action)).count a

/-- How often the finish has to cancel and to release it. -/
def due (runtime : BuildActionRuntime) (a : Nat) : Int :=
  if runtime.finished then runtime.mapped a else 0

theorem mine_self (a : Nat) : mine a a = 1 := if_pos rfl

theorem mine_nonneg (a b : Nat) : 0 ≤ mine a b := by
  unfold mine
  split <;> decide

variable {b : Nat} {next : RuntimeAction} {action : BuildActionStep}

section

variable (h : runtime.actions[b]? = some item)
include h

/-- What changes for an action when one is changed. -/
theorem update_elim (f : RuntimeAction → Int) :
    ((runtime.update b next).actions[a]?).elim 0 f =
      (runtime.actions[a]?).elim 0 f + mine a b * (f next - f item) := by
  unfold update mine
  by_cases heq : b = a
  · subst heq
    rw [getElem?_set_at h, h, if_pos rfl]
    simp only [elim_some]
    omega
  · rw [getElem?_set_ne heq, if_neg heq]
    omega

/-- What a step does to what is counted for an action. -/
structure Effect (a : Nat) (runtime : BuildActionRuntime) (step : RuntimeStep)
    (result : RuntimeResult) : Prop where
  creator : result.next.heldBy a .creator + releasing a .creator step =
    runtime.heldBy a .creator + (result.more.map (releasing a .creator)).sum
  report : result.next.heldBy a .report + releasing a .report step =
    runtime.heldBy a .report + (result.more.map (releasing a .report)).sum
  execution : result.next.heldBy a .execution + runtime.idle a + ends a step =
    runtime.heldBy a .execution + result.next.idle a + (result.more.map (ends a)).sum
  mapping : result.next.heldBy a .runtime + (result.more.map (referencing a)).sum +
      result.entries.count (.released a) + runtime.mapped a =
    runtime.heldBy a .runtime + referencing a step + result.next.mapped a
  canceled : (result.more.map (cancels a)).sum + result.entries.count (.canceled a) + runtime.due a =
    cancels a step + result.next.due a
  released : (result.more.map (releasing a .runtime)).sum + result.entries.count (.released a) +
    runtime.due a = releasing a .runtime step + result.next.due a
  added : (result.more.map (adding a)).sum + result.next.mapped a ≤ adding a step + runtime.mapped a
  registered : result.entries.count (.registered a) + runtime.mapped a = result.next.mapped a
  executed : result.entries.count (.executed a) + result.next.fresh a ≤ runtime.fresh a

theorem heldBy_update (a : Nat) (holder : ActionHolder) : (runtime.update b next).heldBy a holder =
      runtime.heldBy a holder + mine a b * (next.holders.count holder - item.holders.count holder) :=
  update_elim h fun item => item.holders.count holder

theorem idle_update (a : Nat) :
    (runtime.update b next).idle a =
      runtime.idle a + mine a b * (next.action.idle - item.action.idle) :=
  update_elim h fun item => item.action.idle

theorem fresh_update (a : Nat) :
    (runtime.update b next).fresh a = runtime.fresh a +
      mine a b * ((if next.action.state = .none then 1 else 0) -
        (if item.action.state = .none then 1 else 0)) :=
  update_elim h fun item => if item.action.state = .none then 1 else 0

end

@[simp] theorem mapped_update (b : Nat) (item : RuntimeAction) :
    (runtime.update b item).mapped a = runtime.mapped a := rfl

@[simp] theorem due_update (b : Nat) (item : RuntimeAction) :
    (runtime.update b item).due a = runtime.due a := rfl

/-- A step that changes nothing but leaves steps to be done that are not counted. -/
theorem effect_of_quiet (hnext : result.next = runtime)
    (hmore : ∀ other ∈ result.more, adding a other = 0 ∧ referencing a other = 0 ∧
      cancels a other = 0 ∧ (∀ holder, releasing a holder other = 0) ∧ ends a other = 0)
    (hentries : ∀ entry ∈ result.entries, ∃ b, entry = .usedFreed b ∨ entry = .actived b)
    (hadding : 0 ≤ adding a step) (hstep : referencing a step = 0 ∧ cancels a step = 0 ∧
      (∀ holder, releasing a holder step = 0) ∧ ends a step = 0) :
    Effect a runtime step result := by
  have hsum : ∀ f : RuntimeStep → Int, (∀ other ∈ result.more, f other = 0) →
      (result.more.map f).sum = 0 := by
    intro f hf
    refine sum_eq_zero fun value hvalue => ?_
    obtain ⟨other, hother, rfl⟩ := mem_map.mp hvalue
    exact hf other hother
  have hcount : ∀ entry, (∀ b, entry ≠ .usedFreed b ∧ entry ≠ .actived b) →
      result.entries.count entry = 0 := by
    intro entry hne
    refine count_eq_zero.mpr fun hmem => ?_
    obtain ⟨b, heq⟩ := hentries entry hmem
    exact heq.elim (hne b).1 (hne b).2
  have hreleasing := fun holder => hsum (releasing a holder) fun other h => (hmore other h).2.2.2.1 holder
  have hends := hsum (ends a) fun other h => (hmore other h).2.2.2.2
  have hcancels := hsum (cancels a) fun other h => (hmore other h).2.2.1
  have hreferencing := hsum (referencing a) fun other h => (hmore other h).2.1
  have hadded := hsum (adding a) fun other h => (hmore other h).1
  have hreleased := hcount (.released a) fun _ => ⟨nofun, nofun⟩
  have hcanceled := hcount (.canceled a) fun _ => ⟨nofun, nofun⟩
  have hregistered := hcount (.registered a) fun _ => ⟨nofun, nofun⟩
  have hexecuted := hcount (.executed a) fun _ => ⟨nofun, nofun⟩
  obtain ⟨hreference, hcancel, hrelease, hend⟩ := hstep
  constructor
  · rw [hnext, hreleasing, hrelease]
  · rw [hnext, hreleasing, hrelease]
  · rw [hnext, hends, hend]
  · rw [hnext, hreferencing, hreference, hreleased]
    omega
  · rw [hnext, hcancels, hcancel, hcanceled]
    omega
  · rw [hnext, hreleasing, hrelease, hreleased]
    omega
  · rw [hnext, hadded]
    omega
  · rw [hnext, hregistered]
    omega
  · rw [hnext, hexecuted]
    omega

/-- What may be assumed of a step: a holder that releases has a reference, and the calls of an action
are those of the runtime. -/
structure Allowed (a : Nat) (runtime : BuildActionRuntime) (step : RuntimeStep) : Prop where
  release : ∀ item holder, runtime.actions[a]? = some item → step = .release a holder →
    holder ∈ item.holders
  finish : ∀ item, runtime.actions[a]? = some item → step = .run a .finishExecute →
    .execution ∈ item.holders
  run : ∀ b action, step = .run b action → BuildAction.plain action = true
  cancel : ∀ b action, step = .cancel b action → BuildAction.canceling action = true
  holder : ∀ b, step ≠ .release b .execution

theorem count_erase_of_mem {holders : List ActionHolder} (h : holder ∈ holders) (other : ActionHolder) :
    ((holders.erase holder).count other : Int) =
      holders.count other - if other = holder then 1 else 0 := by
  by_cases heq : other = holder
  · subst heq
    have hpos := count_pos_iff.mpr h
    rw [count_erase_self, if_pos rfl]
    omega
  · rw [count_erase_of_ne heq, if_neg heq]
    omega

section

variable (h : runtime.actions[b]? = some item)
include h

theorem effect_addRef :
    Effect a runtime (.addRef b) { next := runtime.update b (item.addRef .runtime) } := by
  constructor <;>
    simp [heldBy_update h, idle_update h, fresh_update h, RuntimeAction.addRef, releasing, ends,
      referencing, cancels, adding]

theorem effect_addRefActive :
    Effect a runtime (.addRefActive b)
      { next := runtime.update b (item.addRef .report)
        more := [.onBuildingTunnelActive b, .release b .report] } := by
  constructor <;>
    simp [heldBy_update h, idle_update h, fresh_update h, RuntimeAction.addRef, releasing, ends,
      referencing, cancels, adding]

theorem effect_execute
    (hstate : item.action.state = .none) (callbacks : BuildActionCallbacks) {begun : BuildAction}
    (hbegun : begun.state = .executing) :
    Effect a runtime (.execute b callbacks)
      { next := runtime.update b ({ item with action := begun }.addRef .execution)
        entries := [.executed b]
        more := [.run b .endExecute] } := by
  have hidle : begun.idle = 0 ∧ item.action.idle = 0 := by
    unfold BuildAction.idle
    rw [hbegun, hstate]
    exact ⟨rfl, rfl⟩
  constructor
  case executed =>
    by_cases heq : b = a
    case pos =>
      subst heq
      simp [fresh_update h, RuntimeAction.addRef, hbegun, hstate, mine]
    case neg => simp [heq, fresh_update h, RuntimeAction.addRef, mine]
  all_goals
    simp [heldBy_update h, idle_update h, RuntimeAction.addRef, releasing, ends,
      referencing, cancels, adding, hidle, BuildAction.ending, mine]
  split <;> omega

/-- A holder gives back the reference that it has taken. -/
theorem heldBy_release
    (hmem : b = a → holder ∈ item.holders) (hnext : next.holders = item.holders.erase holder)
    (other : ActionHolder) : (runtime.update b next).heldBy a other =
      runtime.heldBy a other - mine a b * (if other = holder then 1 else 0) := by
  rw [heldBy_update h, hnext]
  by_cases heq : b = a
  · rw [count_erase_of_mem (hmem heq)]
    unfold mine
    rw [if_pos heq]
    omega
  · unfold mine
    rw [if_neg heq]
    omega

theorem effect_release (holder : ActionHolder)
    (hmem : b = a → holder ∈ item.holders) (hholder : holder ≠ .execution) :
    Effect a runtime (.release b holder)
      { next := runtime.update b (item.release holder)
        entries := if holder = .runtime then [.released b] else [] } := by
  have hholders : (item.release holder).holders = item.holders.erase holder := rfl
  have hheld := heldBy_release h hmem hholders
  have hidle : (runtime.update b (item.release holder)).idle a = runtime.idle a := by
    rw [idle_update h]
    simp [RuntimeAction.release]
  have hfresh : (runtime.update b (item.release holder)).fresh a = runtime.fresh a := by
    have hsame : (item.release holder).action.state = item.action.state := rfl
    rw [fresh_update h, hsame, Int.sub_self, Int.mul_zero, Int.add_zero]
  have hcount : ((if holder = .runtime then [RuntimeEntry.released b] else []).count
      (RuntimeEntry.released a) : Int) = if holder = .runtime then mine a b else 0 := by
    split
    · by_cases heq : b = a <;> simp [mine, heq]
    · rfl
  have hother : ∀ entry, entry ≠ RuntimeEntry.released b →
      (if holder = .runtime then [RuntimeEntry.released b] else []).count entry = 0 := by
    intro entry hne
    split
    · exact count_eq_zero.mpr fun hmem => hne (mem_singleton.mp hmem)
    · rfl
  have hexecuted := hother (.executed a) nofun
  cases holder with
  | execution => exact absurd rfl hholder
  | creator | report | runtime =>
    constructor <;>
      simp_all [releasing, ends, referencing, cancels, adding]

end

theorem performAction_eq (item : RuntimeAction) (action : BuildActionStep) :
    (performAction item action).action = (item.action.perform action).next ∧
      (performAction item action).holders =
        if action = .finishExecute then item.holders.erase .execution else item.holders := by
  unfold performAction
  dsimp only
  split <;> exact ⟨rfl, rfl⟩

theorem heldBy_perform (h : runtime.actions[b]? = some item)
    (hmem : b = a → action = .finishExecute → .execution ∈ item.holders) (other : ActionHolder) :
    (runtime.update b (performAction item action)).heldBy a other = runtime.heldBy a other -
      mine a b * (if action = .finishExecute ∧ other = .execution then 1 else 0) := by
  have hholders := (performAction_eq item action).2
  by_cases hfinish : action = .finishExecute
  · rw [if_pos hfinish] at hholders
    rw [heldBy_release h (fun heq => hmem heq hfinish) hholders]
    simp only [hfinish, true_and]
  · rw [if_neg hfinish] at hholders
    rw [heldBy_update h, hholders]
    simp [hfinish]

theorem fresh_perform (h : runtime.actions[b]? = some item)
    (hplain : BuildAction.plain action = true) :
    (runtime.update b (performAction item action)).fresh a ≤ runtime.fresh a := by
  have hfresh := (BuildAction.proceeds_perform item.action hplain).fresh
  rw [fresh_update h, (performAction_eq item action).1]
  have hle : (if (item.action.perform action).next.state = .none then 1 else 0 : Int) -
      (if item.action.state = .none then 1 else 0) ≤ 0 := by
    split
    case isTrue hnone => rw [if_pos (hfresh hnone)]; decide
    case isFalse => split <;> decide
  have hmine := mine_nonneg a b
  have hprod := Int.mul_nonpos_of_nonneg_of_nonpos hmine hle
  omega

theorem sum_run (a b : Nat) (more : List BuildActionStep) :
    ((more.map (RuntimeStep.run b)).map (ends a)).sum =
      mine a b * (more.map BuildAction.ending).sum := by
  induction more with
  | nil => exact (Int.mul_zero _).symm
  | cons _ _ ih =>
    rw [map_cons, map_cons, sum_cons, ih, map_cons, sum_cons, Int.mul_add]
    rfl

theorem sum_run_zero {f : RuntimeStep → Int} (hf : ∀ step, f (.run b step) = 0)
    (more : List BuildActionStep) : ((more.map (RuntimeStep.run b)).map f).sum = 0 := by
  refine sum_eq_zero fun value hvalue => ?_
  obtain ⟨other, hother, rfl⟩ := mem_map.mp hvalue
  obtain ⟨step, -, rfl⟩ := mem_map.mp hother
  exact hf step

section

variable (h : runtime.actions[b]? = some item) (hplain : BuildAction.plain action = true)
include h hplain

theorem idle_perform :
    (runtime.update b (performAction item action)).idle a +
        mine a b * ((item.action.perform action).more.map BuildAction.ending).sum +
        mine a b * (if action = .finishExecute then 1 else 0) =
      runtime.idle a + mine a b * BuildAction.ending action := by
  have hending := BuildAction.ending_perform item.action hplain
  rw [idle_update h, (performAction_eq item action).1]
  have hprod := congrArg (mine a b * ·) hending
  simp only [Int.mul_add] at hprod
  rw [Int.mul_sub]
  omega

theorem effect_run
    (hmem : b = a → action = .finishExecute → .execution ∈ item.holders) :
    Effect a runtime (.run b action)
      { next := runtime.update b (performAction item action)
        more := (item.action.perform action).more.map (.run b) } := by
  have hheld := heldBy_perform h hmem
  have hidle := idle_perform (a := a) h hplain
  have hfresh := fresh_perform (a := a) h hplain
  constructor
  case creator | report | mapping =>
    rw [sum_run_zero (fun _ => rfl), hheld]
    simp [releasing, referencing]
  case execution =>
    rw [sum_run, hheld]
    simp only [and_true, ends]
    omega
  case canceled | released | added =>
    rw [sum_run_zero (fun _ => rfl)]
    simp [cancels, releasing, adding]
  case registered => simp
  case executed => simpa using hfresh

end

theorem effect_cancel (h : runtime.actions[b]? = some item)
    (hcanceling : BuildAction.canceling action = true)
    (hresult : runtime.perform (.cancel b action) = some result) :
    Effect a runtime (.cancel b action) result := by
  have hplain := BuildAction.plain_of_canceling hcanceling
  have hne : action ≠ .finishExecute := by
    rintro rfl
    cases hcanceling
  have hending : BuildAction.ending action = 0 := by
    cases action <;> first | rfl | cases hcanceling
  have hheld := heldBy_perform (a := a) h fun _ heq => absurd heq hne
  have hidle := idle_perform (a := a) h hplain
  have hfresh := fresh_perform (a := a) h hplain
  simp only [hne, false_and, if_false, Int.mul_zero, Int.sub_zero, hending, Int.add_zero]
    at hheld hidle
  rw [perform, h, map_some] at hresult
  dsimp only at hresult
  split at hresult
  case isTrue hswap =>
    obtain ⟨other, hmore, hother, -, -⟩ := BuildAction.canceling_more hcanceling hswap
    have hnone : BuildAction.ending other = 0 := by
      cases other <;> first | rfl | cases hother
    rw [hmore] at hresult hidle
    simp only [map_cons, map_nil, sum_cons, sum_nil, hnone, Int.mul_zero, Int.add_zero] at hidle
    obtain rfl := some.inj hresult
    constructor <;>
      simp [hheld, hidle, hfresh, releasing, ends, referencing, cancels, adding]
  case isFalse =>
  obtain rfl := some.inj hresult
  have hrun := effect_run (a := a) h hplain fun _ heq => absurd heq hne
  refine ⟨hrun.creator, hrun.report, ?_, hrun.mapping, ?_, hrun.released, hrun.added, hrun.registered,
    hrun.executed⟩
  · simpa [ends, hending] using hrun.execution
  · rw [sum_run_zero (fun _ => rfl)]
    by_cases heq : b = a <;> simp [cancels, mine, heq]

theorem effect_add {localEndpoint remoteEndpoint : BdtEndpoint}
    {callbacks : BuildActionCallbacks} {actived : Bool} {node : BuildingTunnelMap}
    (hnode : node.action = b) (hfinished : runtime.finished = false) :
    Effect a runtime (.addBuildingTunnelAction localEndpoint remoteEndpoint b callbacks actived)
      { next := { runtime with buildingTunnels := node :: runtime.buildingTunnels }
        entries := [.registered b]
        more := [.addRef b, .execute b callbacks] ++ if actived then [.addRefActive b] else [] } := by
  have hmapped : mapped { runtime with buildingTunnels := node :: runtime.buildingTunnels } a =
      runtime.mapped a + mine a b := by
    unfold mapped mine
    rw [map_cons, hnode, count_cons]
    by_cases heq : b = a <;> simp [heq]
  have hdue : due { runtime with buildingTunnels := node :: runtime.buildingTunnels } a = 0 ∧
      runtime.due a = 0 := by
    unfold due
    rw [hfinished]
    exact ⟨rfl, rfl⟩
  have hsame : ∀ holder, heldBy { runtime with buildingTunnels := node :: runtime.buildingTunnels } a
      holder = runtime.heldBy a holder := fun _ => rfl
  have hidle : idle { runtime with buildingTunnels := node :: runtime.buildingTunnels } a =
      runtime.idle a := rfl
  have hfresh : fresh { runtime with buildingTunnels := node :: runtime.buildingTunnels } a =
      runtime.fresh a := rfl
  have hcount : ([RuntimeEntry.registered b].count (RuntimeEntry.registered a) : Int) = mine a b := by
    by_cases heq : b = a <;> simp [mine, heq]
  have hmore : ∀ f : RuntimeStep → Int, f (.addRefActive b) = 0 →
      (([RuntimeStep.addRef b, .execute b callbacks] ++
        if actived then [RuntimeStep.addRefActive b] else []).map f).sum =
        f (.addRef b) + f (.execute b callbacks) := by
    intro f hf
    cases actived <;> simp [hf]
  constructor
  case creator | report =>
    rw [hmore _ rfl, hsame]
    simp [releasing]
  case execution =>
    rw [hmore _ rfl, hsame, hidle]
    simp [ends]
  case mapping =>
    rw [hmore _ rfl, hsame, hmapped]
    simp [referencing]
    omega
  case canceled | released =>
    rw [hmore _ rfl, hdue.1, hdue.2]
    simp [cancels, releasing]
  case added =>
    rw [hmore (adding a) rfl, hmapped]
    simp [adding]
    omega
  case registered =>
    rw [hcount, hmapped]
    omega
  case executed =>
    rw [hfresh]
    simp

section

variable (nodes : List BuildingTunnelMap) (f : RuntimeStep → Int)
  (steps : BuildingTunnelMap → List RuntimeStep)

theorem sum_flatMap (hsteps : ∀ node,
      ((steps node).map f).sum = mine a node.action) :
    ((nodes.flatMap steps).map f).sum = (nodes.map (·.action)).count a := by
  induction nodes with
  | nil => rfl
  | cons node _ ih =>
    rw [flatMap_cons, map_append, sum_append, ih, hsteps, map_cons, count_cons]
    by_cases heq : node.action = a <;> simp [mine, heq, Int.add_comm]

theorem sum_flatMap_zero (hsteps : ∀ node,
      ((steps node).map f).sum = 0) : ((nodes.flatMap steps).map f).sum = 0 := by
  induction nodes with
  | nil => rfl
  | cons _ _ ih => rw [flatMap_cons, map_append, sum_append, ih, hsteps]; rfl

end

theorem effect_onFinish (hfinished : runtime.finished = false) :
    Effect a runtime .onFinish
      { next := { runtime with finished := true }
        more := runtime.buildingTunnels.flatMap fun node =>
          [.cancel node.action (.cancel .none), .release node.action .runtime] } := by
  have hdue : due { runtime with finished := true } a = runtime.mapped a ∧ runtime.due a = 0 := by
    unfold due
    rw [hfinished]
    exact ⟨rfl, rfl⟩
  have hsame : ∀ holder, heldBy { runtime with finished := true } a holder =
      runtime.heldBy a holder := fun _ => rfl
  constructor
  case creator | report =>
    rw [sum_flatMap_zero _ _ _ fun _ => by simp [releasing], hsame]
    simp [releasing]
  case execution =>
    rw [sum_flatMap_zero _ _ _ fun _ => by simp [ends], hsame]
    rfl
  case mapping =>
    rw [sum_flatMap_zero _ _ _ fun _ => by simp [referencing], hsame]
    show runtime.heldBy a .runtime + 0 + 0 + runtime.mapped a =
      runtime.heldBy a .runtime + 0 + runtime.mapped a
    omega
  case canceled | released =>
    rw [sum_flatMap (a := a) _ _ _ fun _ => by simp [cancels, releasing], hdue.1, hdue.2]
    show runtime.mapped a + 0 + 0 = 0 + runtime.mapped a
    omega
  case added =>
    rw [sum_flatMap_zero _ _ _ fun _ => by simp [adding]]
    exact Int.le_refl _
  case registered => exact Int.zero_add _
  case executed => exact Int.le_of_eq (Int.zero_add _)

theorem mapped_updateMember (a : Nat) (runtime : BuildActionRuntime) (toFind : BuildingTunnelMap) :
    mapped { runtime with
      buildingTunnels := updateMember BuildingTunnelMapCompare runtime.buildingTunnels toFind
        fun node => { node with actived := true } } a = runtime.mapped a := by
  have hmap : (updateMember BuildingTunnelMapCompare runtime.buildingTunnels toFind
      fun node => { node with actived := true }).map (·.action) =
        runtime.buildingTunnels.map (·.action) := map_updateMember fun _ => rfl
  unfold mapped
  rw [hmap]

theorem effect_mark {localEndpoint remoteEndpoint : BdtEndpoint} (toFind : BuildingTunnelMap) :
    Effect a runtime (.activeBuildingTunnel localEndpoint remoteEndpoint b)
      { next := { runtime with
          buildingTunnels := updateMember BuildingTunnelMapCompare runtime.buildingTunnels toFind
            fun node => { node with actived := true } }
        more := [.onBuildingTunnelActive b] } := by
  have hmapped := mapped_updateMember a runtime toFind
  have hdue : due { runtime with
      buildingTunnels := updateMember BuildingTunnelMapCompare runtime.buildingTunnels toFind
        fun node => { node with actived := true } } a = runtime.due a := by
    unfold due
    rw [hmapped]
  refine ⟨rfl, rfl, rfl, ?_, ?_, ?_, ?_, ?_, ?_⟩
  · rw [hmapped]
    show runtime.heldBy a .runtime + 0 + 0 + runtime.mapped a =
      runtime.heldBy a .runtime + 0 + runtime.mapped a
    omega
  · rw [hdue]
    simp [cancels]
  · rw [hdue]
    simp [releasing]
  · rw [hmapped]
    simp [adding]
  · rw [hmapped]
    simp
  · exact Int.le_of_eq (Int.zero_add _)

theorem perform_effect (h : Allowed a runtime step) (hresult : runtime.perform step = some result) :
    Effect a runtime step result := by
  cases step with
  | addBuildingTunnelAction localEndpoint remoteEndpoint b callbacks actived =>
    have hquiet : Effect a runtime
        (.addBuildingTunnelAction localEndpoint remoteEndpoint b callbacks actived)
        { next := runtime } :=
      effect_of_quiet rfl (forall_mem_nil _) (forall_mem_nil _) (mine_nonneg a b)
        ⟨rfl, rfl, fun _ => rfl, rfl⟩
    obtain rfl := some.inj hresult
    split
    case isTrue => exact hquiet
    case isFalse hfinished =>
    split
    case h_1 => exact hquiet
    case h_2 tunnels hadd =>
      obtain ⟨-, rfl⟩ := addIfNotMember_added hadd
      exact effect_add rfl (Bool.eq_false_iff.mpr hfinished)
  | addRef =>
    obtain ⟨item, hget, rfl⟩ := map_eq_some_iff.mp hresult
    exact effect_addRef hget
  | execute _ callbacks =>
    obtain ⟨item, hget, rfl⟩ := map_eq_some_iff.mp hresult
    split
    case isTrue hstate =>
      refine effect_execute hget hstate callbacks ?_
      rw [BuildAction.perform, if_pos hstate]
      rfl
    case isFalse =>
      exact effect_of_quiet rfl (forall_mem_nil _) (forall_mem_nil _) (Int.le_refl 0)
        ⟨rfl, rfl, fun _ => rfl, rfl⟩
  | addRefActive =>
    obtain ⟨item, hget, rfl⟩ := map_eq_some_iff.mp hresult
    exact effect_addRefActive hget
  | onBuildingTunnelActive b =>
    obtain rfl := some.inj hresult
    refine effect_of_quiet rfl (forall_mem_nil _) (fun entry hmem => ?_) (Int.le_refl 0)
      ⟨rfl, rfl, fun _ => rfl, rfl⟩
    exact ⟨b, .inr (mem_singleton.mp hmem)⟩
  | release b holder =>
    obtain ⟨item, hget, rfl⟩ := map_eq_some_iff.mp hresult
    refine effect_release hget holder ?_ ?_
    · rintro rfl
      exact h.release item holder hget rfl
    · rintro rfl
      exact h.holder b rfl
  | run b action =>
    obtain ⟨item, hget, rfl⟩ := map_eq_some_iff.mp hresult
    refine effect_run hget (h.run b action rfl) ?_
    rintro rfl rfl
    exact h.finish item hget rfl
  | activeBuildingTunnel localEndpoint remoteEndpoint b =>
    have hquiet : ∀ result : RuntimeResult, result.next = runtime → result.more = [] →
        (∀ entry ∈ result.entries, entry = .usedFreed b) →
        Effect a runtime (.activeBuildingTunnel localEndpoint remoteEndpoint b) result := by
      intro result hnext hmore hentries
      refine effect_of_quiet hnext (hmore ▸ forall_mem_nil _) (fun entry hmem => ?_) (Int.le_refl 0)
        ⟨rfl, rfl, fun _ => rfl, rfl⟩
      exact ⟨b, .inl (hentries entry hmem)⟩
    obtain rfl := some.inj hresult
    split
    case isTrue => exact hquiet _ rfl rfl fun entry hmem => mem_singleton.mp hmem
    case isFalse =>
    dsimp only
    split
    case h_1 => exact hquiet _ rfl rfl (forall_mem_nil _)
    case h_2 found hfound =>
    split
    case isTrue => exact effect_mark _
    case isFalse => exact hquiet _ rfl rfl (forall_mem_nil _)
  | onFinish =>
    obtain rfl := some.inj hresult
    split
    case isTrue =>
      exact effect_of_quiet rfl (forall_mem_nil _) (forall_mem_nil _) (Int.le_refl 0)
        ⟨rfl, rfl, fun _ => rfl, rfl⟩
    case isFalse hfinished => exact effect_onFinish (Bool.eq_false_iff.mpr hfinished)
  | cancel b action =>
    obtain ⟨item, hget, -⟩ := map_eq_some_iff.mp hresult
    exact effect_cancel hget (h.cancel b action rfl) hresult

/-- What a step makes of the action it is about. -/
inductive Changes (item : RuntimeAction) (b : Nat) : RuntimeStep → RuntimeAction → Prop
  | addRef : Changes item b (.addRef b) (item.addRef .runtime)
  | addRefActive : Changes item b (.addRefActive b) (item.addRef .report)
  | execute callbacks (hstate : item.action.state = .none) : Changes item b (.execute b callbacks)
    ({ item with action := (item.action.perform (.beginExecute callbacks .none)).next }.addRef .execution)
  | release holder : Changes item b (.release b holder) (item.release holder)
  | run action : Changes item b (.run b action) (performAction item action)
  | cancel action : Changes item b (.cancel b action) (performAction item action)

/-- A step changes the action it is about, or none. -/
theorem perform_actions (hresult : runtime.perform step = some result) :
    result.next.actions = runtime.actions ∨ ∃ b item next, runtime.actions[b]? = some item ∧
      Changes item b step next ∧ result.next.actions = (runtime.update b next).actions := by
  cases step with
  | addBuildingTunnelAction =>
    obtain rfl := some.inj hresult
    left
    split
    · rfl
    · split <;> rfl
  | addRef b =>
    obtain ⟨item, hget, rfl⟩ := map_eq_some_iff.mp hresult
    exact .inr ⟨b, item, _, hget, .addRef, rfl⟩
  | addRefActive b =>
    obtain ⟨item, hget, rfl⟩ := map_eq_some_iff.mp hresult
    exact .inr ⟨b, item, _, hget, .addRefActive, rfl⟩
  | execute b callbacks =>
    obtain ⟨item, hget, rfl⟩ := map_eq_some_iff.mp hresult
    split
    case isTrue hstate => exact .inr ⟨b, item, _, hget, .execute callbacks hstate, rfl⟩
    case isFalse => exact .inl rfl
  | onBuildingTunnelActive =>
    obtain rfl := some.inj hresult
    exact .inl rfl
  | release b holder =>
    obtain ⟨item, hget, rfl⟩ := map_eq_some_iff.mp hresult
    exact .inr ⟨b, item, _, hget, .release holder, rfl⟩
  | run b action =>
    obtain ⟨item, hget, rfl⟩ := map_eq_some_iff.mp hresult
    exact .inr ⟨b, item, _, hget, .run action, rfl⟩
  | activeBuildingTunnel =>
    obtain rfl := some.inj hresult
    left
    split
    · rfl
    dsimp only
    split
    · rfl
    · split <;> rfl
  | onFinish =>
    obtain rfl := some.inj hresult
    left
    split <;> rfl
  | cancel b action =>
    obtain ⟨item, hget, rfl⟩ := map_eq_some_iff.mp hresult
    refine .inr ⟨b, item, _, hget, .cancel action, ?_⟩
    dsimp only
    split <;> rfl

/-! ## The reference count -/

/-- By how much the reference count is above the number of the holders. -/
def slack (runtime : BuildActionRuntime) (a : Nat) : Int :=
  (runtime.actions[a]?).elim 0 fun item => item.refCount - item.holders.length

theorem slack_update (h : runtime.actions[b]? = some item) (a : Nat) :
    (runtime.update b next).slack a = runtime.slack a + mine a b *
      (next.refCount - next.holders.length - (item.refCount - item.holders.length)) :=
  update_elim h fun item => item.refCount - item.holders.length

/-- A change that keeps the reference count above the holders as far as it was, or less far. -/
theorem slack_le (h : runtime.actions[b]? = some item)
    (hle : next.refCount - next.holders.length ≤ item.refCount - item.holders.length) :
    (runtime.update b next).slack a ≤ runtime.slack a := by
  rw [slack_update h]
  have hprod := Int.mul_nonpos_of_nonneg_of_nonpos (mine_nonneg a b) (Int.sub_nonpos_of_le hle)
  omega

theorem slack_eq (h : runtime.actions[b]? = some item)
    (heq : b = a → next.refCount - next.holders.length = item.refCount - item.holders.length) :
    (runtime.update b next).slack a = runtime.slack a := by
  rw [slack_update h]
  unfold mine
  split
  case isTrue hsame =>
    rw [heq hsame, Int.sub_self]
    omega
  case isFalse => omega

theorem release_slack (item : RuntimeAction) (holder : ActionHolder) :
    (item.release holder).refCount - (item.release holder).holders.length ≤
        item.refCount - item.holders.length ∧
      (holder ∈ item.holders → (item.release holder).refCount - (item.release holder).holders.length =
        item.refCount - item.holders.length) := by
  unfold RuntimeAction.release
  dsimp only
  by_cases hmem : holder ∈ item.holders
  · have hlength := length_erase_add_one hmem
    omega
  · rw [erase_of_not_mem hmem]
    exact ⟨by omega, fun h => absurd h hmem⟩

theorem addRef_slack (item : RuntimeAction) (holder : ActionHolder) :
    (item.addRef holder).refCount - (item.addRef holder).holders.length =
      item.refCount - item.holders.length := by
  unfold RuntimeAction.addRef
  dsimp only
  rw [length_cons]
  omega

theorem Changes.slack (h : Changes item b step next) (hget : runtime.actions[b]? = some item) :
    next.refCount - next.holders.length ≤ item.refCount - item.holders.length ∧
      (Allowed b runtime step →
        next.refCount - next.holders.length = item.refCount - item.holders.length) := by
  have hperform : ∀ action, (performAction item action).refCount -
      (performAction item action).holders.length ≤ item.refCount - item.holders.length ∧
      ((action = .finishExecute → .execution ∈ item.holders) → (performAction item action).refCount -
        (performAction item action).holders.length = item.refCount - item.holders.length) := by
    intro action
    unfold performAction
    have hslack := release_slack
      { item with action := (item.action.perform action).next } .execution
    by_cases hfinish : action = .finishExecute
    · rw [if_pos hfinish]
      exact ⟨hslack.1, fun hmem => hslack.2 (hmem hfinish)⟩
    · rw [if_neg hfinish]
      exact ⟨Int.le_refl _, fun _ => rfl⟩
  cases h with
  | addRef | addRefActive | execute =>
    rw [addRef_slack]
    exact ⟨Int.le_refl _, fun _ => rfl⟩
  | release holder =>
    have hslack := release_slack item holder
    exact ⟨hslack.1, fun hallowed => hslack.2 (hallowed.release item holder hget rfl)⟩
  | run action =>
    refine ⟨(hperform action).1, fun hallowed => (hperform action).2 ?_⟩
    rintro rfl
    exact hallowed.finish item hget rfl
  | cancel action =>
    refine ⟨(hperform action).1, fun hallowed => (hperform action).2 ?_⟩
    rintro rfl
    cases hallowed.cancel b .finishExecute rfl

theorem perform_slack (hresult : runtime.perform step = some result) :
    result.next.slack a ≤ runtime.slack a ∧
      (Allowed a runtime step → result.next.slack a = runtime.slack a) := by
  rcases perform_actions hresult with hsame | ⟨b, item, next, hget, hchanges, hactions⟩
  · have heq : result.next.slack a = runtime.slack a := by rw [slack, hsame, slack]
    exact ⟨Int.le_of_eq heq, fun _ => heq⟩
  have hnext : result.next.slack a = (runtime.update b next).slack a := by rw [slack, hactions, slack]
  have hslack := hchanges.slack hget
  rw [hnext]
  refine ⟨slack_le hget hslack.1, fun hallowed => slack_eq hget ?_⟩
  rintro rfl
  exact hslack.2 hallowed

/-! ## The state of an action -/

/-- What becomes of an action in a step. -/
structure Goes (item after : RuntimeAction) : Prop where
  fresh : after.action.state = .none → item.action.state = .none
  bound : item.action.state ≠ .bound → after.action.state ≠ .bound
  final : RuntimeRun.isFinal item.action.state = true → RuntimeRun.isFinal after.action.state = true

variable {after : RuntimeAction}

theorem Goes.of_action (h : after.action = item.action) : Goes item after := by
  constructor <;> rw [h] <;> exact id

theorem Goes.of_update (h : runtime.actions[b]? = some item) (hgoes : Goes item next)
    (hget : (runtime.update b next).actions[a]? = some after) :
    ∃ before, runtime.actions[a]? = some before ∧ Goes before after := by
  rcases set_cases h hget with ⟨rfl, rfl⟩ | ⟨-, hget⟩
  · exact ⟨item, h, hgoes⟩
  · exact ⟨after, hget, .of_action rfl⟩

theorem goes_performAction (h : BuildAction.plain action = true) :
    Goes item (performAction item action) := by
  have hproceeds := BuildAction.proceeds_perform item.action h
  have heq := (performAction_eq item action).1
  constructor <;> rw [heq]
  · exact hproceeds.fresh
  · exact hproceeds.bound
  · exact hproceeds.final

/-- The calls of actions are those of the runtime. -/
def Permitted : RuntimeStep → Prop
  | .run _ action => BuildAction.plain action = true
  | .cancel _ action => BuildAction.canceling action = true
  | .release _ holder => holder ≠ .execution
  | _ => True

theorem perform_goes (h : Permitted step) (hresult : runtime.perform step = some result)
    (hget : result.next.actions[a]? = some after) :
    ∃ before, runtime.actions[a]? = some before ∧ Goes before after := by
  rcases perform_actions hresult with hsame | ⟨b, item, next, hitem, hchanges, hactions⟩
  · exact ⟨after, by rw [← hsame, hget], .of_action rfl⟩
  rw [hactions] at hget
  refine Goes.of_update hitem ?_ hget
  cases hchanges with
  | addRef | addRefActive | release => exact .of_action rfl
  | execute callbacks hstate =>
    refine ⟨fun _ => hstate, fun _ => ?_, fun hfinal => ?_⟩
    · show (item.action.perform _).next.state ≠ _
      rw [BuildAction.perform, if_pos hstate]
      nofun
    · rw [hstate] at hfinal
      cases hfinal
  | run => exact goes_performAction h
  | cancel => exact goes_performAction (BuildAction.plain_of_canceling h)

theorem perform_length (hresult : runtime.perform step = some result) :
    result.next.actions.length = runtime.actions.length := by
  rcases perform_actions hresult with hsame | ⟨b, item, next, -, -, hactions⟩
  · rw [hsame]
  · rw [hactions]
    exact length_set

/-- What a step leaves to be done is permitted, and the last swap of a cancel finds an action that is
not a new one. -/
theorem permitted_more (h : Permitted step) (hresult : runtime.perform step = some result) :
    ∀ other ∈ result.more, Permitted other ∧ (∀ settle, other = .cancel a (.settleExecuted settle) →
      ∀ after, result.next.actions[a]? = some after → after.action.state ≠ .none) := by
  intro other hmem
  cases step with
  | addBuildingTunnelAction _ _ _ _ actived =>
    obtain rfl := some.inj hresult
    split at hmem
    · cases hmem
    split at hmem
    · cases hmem
    · cases actived <;> simp at hmem <;> rcases hmem with rfl | rfl | rfl <;>
        exact ⟨trivial, nofun⟩
  | addRef | release =>
    obtain ⟨item, hitem, rfl⟩ := map_eq_some_iff.mp hresult
    cases hmem
  | addRefActive =>
    obtain ⟨item, hitem, rfl⟩ := map_eq_some_iff.mp hresult
    simp at hmem
    rcases hmem with rfl | rfl
    · exact ⟨trivial, nofun⟩
    · exact ⟨nofun, nofun⟩
  | execute =>
    obtain ⟨item, hitem, rfl⟩ := map_eq_some_iff.mp hresult
    split at hmem
    · obtain rfl := mem_singleton.mp hmem
      exact ⟨rfl, nofun⟩
    · cases hmem
  | onBuildingTunnelActive =>
    obtain rfl := some.inj hresult
    cases hmem
  | run _ action =>
    obtain ⟨item, hitem, rfl⟩ := map_eq_some_iff.mp hresult
    obtain ⟨step, hstep, rfl⟩ := mem_map.mp hmem
    exact ⟨(BuildAction.proceeds_perform item.action h).more step hstep, nofun⟩
  | activeBuildingTunnel =>
    obtain rfl := some.inj hresult
    split at hmem
    · cases hmem
    dsimp only at hmem
    split at hmem
    · cases hmem
    split at hmem
    · obtain rfl := mem_singleton.mp hmem
      exact ⟨trivial, nofun⟩
    · cases hmem
  | onFinish =>
    obtain rfl := some.inj hresult
    split at hmem
    · cases hmem
    obtain ⟨node, -, hmem⟩ := mem_flatMap.mp hmem
    simp at hmem
    rcases hmem with rfl | rfl
    · exact ⟨rfl, nofun⟩
    · exact ⟨nofun, nofun⟩
  | cancel b action =>
    obtain ⟨item, hitem, rfl⟩ := map_eq_some_iff.mp hresult
    by_cases hswap : (item.action.perform action).more.any (·.isSwap) = true
    · obtain ⟨next, hmore, hnext, hstate, hfresh⟩ := BuildAction.canceling_more h hswap
      rw [if_pos hswap] at hmem ⊢
      rw [hmore] at hmem
      obtain rfl := mem_singleton.mp hmem
      refine ⟨hnext, fun settle heq after hafter => ?_⟩
      obtain ⟨rfl, rfl⟩ := RuntimeStep.cancel.inj heq
      obtain rfl := some.inj ((getElem?_set_at hitem _).symm.trans hafter)
      rw [(performAction_eq item action).1, hstate]
      exact hfresh settle rfl
    dsimp only at hmem ⊢
    rw [if_neg hswap] at hmem ⊢
    obtain ⟨step, hstep, rfl⟩ := mem_map.mp hmem
    exact ⟨(BuildAction.proceeds_perform item.action (BuildAction.plain_of_canceling h)).more step hstep,
      nofun⟩

/-- What a step adds to the history. -/
inductive Entered (runtime : BuildActionRuntime) (step : RuntimeStep) (result : RuntimeResult) :
    List RuntimeEntry → Prop where
  | nothing : Entered runtime step result []
  | registered (b : Nat) : Entered runtime step result [.registered b]
  | released (b : Nat) : Entered runtime step result [.released b]
  | executed (b : Nat) (item : RuntimeAction) (hitem : runtime.actions[b]? = some item)
      (hfresh : item.action.state = .none) :
      Entered runtime step result [.executed b]
  | actived (b : Nat) (hstep : step = .onBuildingTunnelActive b) :
      Entered runtime step result [.actived b]
  | usedFreed (b : Nat) (localEndpoint remoteEndpoint : BdtEndpoint)
      (hstep : step = .activeBuildingTunnel localEndpoint remoteEndpoint b)
      (hfreed : runtime.finished = true ∧ runtime.buildingTunnels ≠ []) :
      Entered runtime step result [.usedFreed b]
  | canceled (b : Nat) (action : BuildActionStep) (item : RuntimeAction)
      (hstep : step = .cancel b action) (hitem : runtime.actions[b]? = some item)
      (hswap : (item.action.perform action).more.any (·.isSwap) = false)
      (hafter : result.next.actions[b]? = some (performAction item action)) :
      Entered runtime step result [.canceled b]

theorem perform_entered (hresult : runtime.perform step = some result) :
    Entered runtime step result result.entries := by
  cases step with
  | addBuildingTunnelAction _ _ b =>
    obtain rfl := some.inj hresult
    split
    · exact .nothing
    · split
      · exact .nothing
      · exact .registered b
  | addRef | addRefActive | run =>
    obtain ⟨item, hitem, rfl⟩ := map_eq_some_iff.mp hresult
    exact .nothing
  | release b =>
    obtain ⟨item, hitem, rfl⟩ := map_eq_some_iff.mp hresult
    split
    · exact .released b
    · exact .nothing
  | execute b =>
    obtain ⟨item, hitem, rfl⟩ := map_eq_some_iff.mp hresult
    split
    case isTrue hstate => exact .executed b item hitem hstate
    case isFalse => exact .nothing
  | onBuildingTunnelActive b =>
    obtain rfl := some.inj hresult
    exact .actived b rfl
  | activeBuildingTunnel localEndpoint remoteEndpoint b =>
    obtain rfl := some.inj hresult
    split
    case isTrue hfreed => exact .usedFreed b localEndpoint remoteEndpoint rfl hfreed
    case isFalse =>
    dsimp only
    split
    · exact .nothing
    · split <;> exact .nothing
  | onFinish =>
    obtain rfl := some.inj hresult
    split <;> exact .nothing
  | cancel b action =>
    obtain ⟨item, hitem, rfl⟩ := map_eq_some_iff.mp hresult
    dsimp only
    split
    case isTrue => exact .nothing
    case isFalse hswap =>
      refine .canceled b action item rfl hitem (Bool.eq_false_iff.mpr hswap) ?_
      exact getElem?_set_at hitem _

/-! ## One more action -/

/-- The runtime with one more action. -/
def create (runtime : BuildActionRuntime) (item : RuntimeAction) : BuildActionRuntime :=
  { runtime with actions := runtime.actions ++ [item] }

section

variable (a : Nat) (runtime : BuildActionRuntime) (item : RuntimeAction)

/-- What is counted for an action when one more is created. -/
theorem create_elim
    (f : RuntimeAction → Int) : ((runtime.create item).actions[a]?).elim 0 f =
      (runtime.actions[a]?).elim 0 f + mine a runtime.actions.length * f item := by
  unfold create mine
  dsimp only
  by_cases hlt : a < runtime.actions.length
  · rw [getElem?_append_left hlt, if_neg (Nat.ne_of_gt hlt), Int.zero_mul, Int.add_zero]
  by_cases heq : runtime.actions.length = a
  · subst heq
    rw [getElem?_concat_length, List.getElem?_eq_none (Nat.le_refl _), if_pos rfl, Int.one_mul]
    exact (Int.zero_add _).symm
  have hle : (runtime.actions ++ [item]).length ≤ a := by
    rw [length_append, length_singleton]
    omega
  rw [List.getElem?_eq_none hle, List.getElem?_eq_none (by omega), if_neg heq, Int.zero_mul,
    Int.add_zero]

theorem heldBy_create
    (holder : ActionHolder) : (runtime.create item).heldBy a holder =
      runtime.heldBy a holder + mine a runtime.actions.length * item.holders.count holder :=
  create_elim a runtime item fun item => item.holders.count holder

theorem idle_create :
    (runtime.create item).idle a =
      runtime.idle a + mine a runtime.actions.length * item.action.idle :=
  create_elim a runtime item fun item => item.action.idle

theorem fresh_create :
    (runtime.create item).fresh a = runtime.fresh a +
      mine a runtime.actions.length * if item.action.state = .none then 1 else 0 :=
  create_elim a runtime item fun item => if item.action.state = .none then 1 else 0

theorem slack_create :
    (runtime.create item).slack a = runtime.slack a +
      mine a runtime.actions.length * (item.refCount - item.holders.length) :=
  create_elim a runtime item fun item => item.refCount - item.holders.length

end

theorem create_get {item new : RuntimeAction} (h : (runtime.create new).actions[a]? = some item) :
    runtime.actions[a]? = some item ∨ runtime.actions.length = a ∧ item = new := by
  unfold create at h
  by_cases hlt : a < runtime.actions.length
  · rw [getElem?_append_left hlt] at h
    exact .inl h
  have hlength := (List.getElem?_eq_some_iff.mp h).1
  rw [length_append, length_singleton] at hlength
  obtain rfl : runtime.actions.length = a := by omega
  rw [getElem?_concat_length] at h
  exact .inr ⟨rfl, (some.inj h).symm⟩

end BuildActionRuntime

namespace RuntimeRun

open BuildActionRuntime

variable {a i : Nat} {run next : RuntimeRun} {step : RuntimeStep} {rest : List RuntimeStep}
  {result : RuntimeResult}

/-! ## Runs -/

/-- 1 for an action that was created. -/
def born (a : Nat) (run : RuntimeRun) : Int :=
  if a < run.runtime.actions.length then 1 else 0

/-- What holds of an action in every run in turn. -/
structure Tracked (a : Nat) (run : RuntimeRun) : Prop where
  creator : run.runtime.heldBy a .creator = weight (releasing a .creator) run.calls
  report : run.runtime.heldBy a .report = weight (releasing a .report) run.calls
  execution : run.runtime.heldBy a .execution = run.runtime.idle a + weight (ends a) run.calls
  mapping : run.runtime.heldBy a .runtime + weight (referencing a) run.calls +
    run.history.count (.released a) = run.runtime.mapped a
  canceled : weight (cancels a) run.calls + run.history.count (.canceled a) = run.runtime.due a
  released : weight (releasing a .runtime) run.calls + run.history.count (.released a) =
    run.runtime.due a
  added : weight (adding a) run.calls + run.runtime.mapped a ≤ born a run
  registered : run.history.count (.registered a) = run.runtime.mapped a
  executed : run.history.count (.executed a) + run.runtime.fresh a ≤ born a run
  counted : run.runtime.slack a = 0
  bound : ∀ item, run.runtime.actions[a]? = some item → item.action.state ≠ .bound
  final : .canceled a ∈ run.history → ∀ item, run.runtime.actions[a]? = some item →
    isFinal item.action.state = true
  swapped : ∀ settle, .cancel a (.settleExecuted settle) ∈ run.calls.flatten →
    ∀ item, run.runtime.actions[a]? = some item → item.action.state ≠ .none
  permitted : ∀ step ∈ run.calls.flatten, Permitted step
  after : Justified (NotAfter a) run.history
  safe : .usedFreed a ∉ run.history

theorem tracked_start (a : Nat) : Tracked a {} where
  creator := rfl
  report := rfl
  execution := rfl
  mapping := rfl
  canceled := rfl
  released := rfl
  added := Int.le_refl 0
  registered := rfl
  executed := Int.le_refl 0
  counted := rfl
  bound := fun _ hitem => by cases hitem
  final := fun hmem => absurd hmem not_mem_nil
  swapped := fun _ hmem => absurd hmem not_mem_nil
  permitted := forall_mem_nil _
  after := justified_nil
  safe := not_mem_nil

theorem releasing_nonneg (a : Nat) (holder : ActionHolder) (step : RuntimeStep) :
    0 ≤ releasing a holder step := by
  unfold releasing
  split
  · split
    · exact mine_nonneg a _
    · exact Int.le_refl 0
  · exact Int.le_refl 0

theorem ends_nonneg (a : Nat) (step : RuntimeStep) : 0 ≤ ends a step := by
  unfold ends
  split
  · refine Int.mul_nonneg (mine_nonneg a _) ?_
    unfold BuildAction.ending
    split <;> decide
  · exact Int.le_refl 0

theorem mine_weight_nonneg {f : RuntimeStep → Int} (hf : ∀ step, f step = 0 ∨ ∃ b, f step = mine a b)
    (calls : List (List RuntimeStep)) : 0 ≤ weight f calls := by
  refine weight_nonneg (fun step => ?_) calls
  rcases hf step with heq | ⟨b, heq⟩
  · rw [heq]
  · rw [heq]
    exact mine_nonneg a b

variable {runtime : BuildActionRuntime} {item : RuntimeAction}

theorem mem_of_heldBy {holder : ActionHolder}
    (h : 0 < runtime.heldBy a holder) (hitem : runtime.actions[a]? = some item) :
    holder ∈ item.holders := by
  unfold heldBy at h
  rw [hitem] at h
  refine count_pos_iff.mp ?_
  simpa using h

theorem Tracked.allowed (h : Tracked a run) (hcall : run.calls[i]? = some (step :: rest))
    (hok : InTurn a run (.step i)) : Allowed a run.runtime step := by
  have hmem := mem_flatten.mpr ⟨_, mem_of_getElem? hcall, mem_cons_self (l := rest)⟩
  have hpermitted := h.permitted step hmem
  constructor
  · rintro item holder hitem rfl
    have hle := le_weight (releasing_nonneg a holder) (mem_of_getElem? hcall)
      (mem_cons_self (l := rest))
    have hone : releasing a holder (.release a holder) = 1 := by
      show (if holder = holder then mine a a else 0) = 1
      rw [if_pos rfl, mine_self]
    cases holder with
    | creator => exact mem_of_heldBy (by rw [h.creator]; omega) hitem
    | report => exact mem_of_heldBy (by rw [h.report]; omega) hitem
    | runtime => exact ((hok _ rest hcall).1 item hitem).1 rfl
    | execution => exact absurd rfl hpermitted
  · rintro item hitem rfl
    have hle := le_weight (ends_nonneg a) (mem_of_getElem? hcall)
      (mem_cons_self (l := rest))
    have hone : ends a (.run a .finishExecute) = 1 := by
      show mine a a * 1 = 1
      rw [mine_self, Int.mul_one]
    have hidle : 0 ≤ run.runtime.idle a := by
      unfold idle
      rw [hitem]
      show 0 ≤ item.action.idle
      unfold BuildAction.idle
      split <;> decide
    exact mem_of_heldBy (by rw [h.execution]; omega) hitem
  · rintro b action rfl
    exact hpermitted
  · rintro b action rfl
    exact hpermitted
  · rintro b rfl
    exact hpermitted rfl

/-- The run after a step. -/
def advance (run : RuntimeRun) (i : Nat) (rest : List RuntimeStep) (result : RuntimeResult) :
    RuntimeRun where
  runtime := result.next
  calls := advanceCall run.calls i result.more rest
  history := run.history ++ result.entries

theorem Tracked.goes_on (h : Tracked a run) (hcall : run.calls[i]? = some (step :: rest))
    (hok : InTurn a run (.step i)) (hresult : run.runtime.perform step = some result) :
    Tracked a (run.advance i rest result) := by
  have hallowed := h.allowed hcall hok
  have heffect := perform_effect hallowed hresult
  have hmem := mem_flatten.mpr ⟨_, mem_of_getElem? hcall, mem_cons_self (l := rest)⟩
  have hpermitted := h.permitted step hmem
  have hweight := fun f : RuntimeStep → Int => weight_advance f result.more hcall
  have hborn : born a (run.advance i rest result) = born a run := by
    unfold born advance
    rw [perform_length hresult]
  have hentered := perform_entered hresult
  constructor
  · have hbefore := h.creator
    have hchange := heffect.creator
    have hmoved := hweight (releasing a .creator)
    show result.next.heldBy a .creator = weight (releasing a .creator)
      (advanceCall run.calls i result.more rest)
    omega
  · have hbefore := h.report
    have hchange := heffect.report
    have hmoved := hweight (releasing a .report)
    show result.next.heldBy a .report = weight (releasing a .report)
      (advanceCall run.calls i result.more rest)
    omega
  · have hbefore := h.execution
    have hchange := heffect.execution
    have hmoved := hweight (ends a)
    show result.next.heldBy a .execution = result.next.idle a +
      weight (ends a) (advanceCall run.calls i result.more rest)
    omega
  · have hbefore := h.mapping
    have hchange := heffect.mapping
    have hmoved := hweight (referencing a)
    show result.next.heldBy a .runtime +
      weight (referencing a) (advanceCall run.calls i result.more rest) +
      (run.history ++ result.entries).count (.released a) = result.next.mapped a
    rw [count_append]
    omega
  · have hbefore := h.canceled
    have hchange := heffect.canceled
    have hmoved := hweight (cancels a)
    show weight (cancels a) (advanceCall run.calls i result.more rest) +
      (run.history ++ result.entries).count (.canceled a) = result.next.due a
    rw [count_append]
    omega
  · have hbefore := h.released
    have hchange := heffect.released
    have hmoved := hweight (releasing a .runtime)
    show weight (releasing a .runtime) (advanceCall run.calls i result.more rest) +
      (run.history ++ result.entries).count (.released a) = result.next.due a
    rw [count_append]
    omega
  · have hbefore := h.added
    have hchange := heffect.added
    have hmoved := hweight (adding a)
    rw [hborn]
    show weight (adding a) (advanceCall run.calls i result.more rest) + result.next.mapped a ≤ born a run
    omega
  · have hbefore := h.registered
    have hchange := heffect.registered
    show (run.history ++ result.entries).count (.registered a) = result.next.mapped a
    rw [count_append]
    omega
  · have hbefore := h.executed
    have hchange := heffect.executed
    rw [hborn]
    show (run.history ++ result.entries).count (.executed a) + result.next.fresh a ≤ born a run
    rw [count_append]
    omega
  · exact ((perform_slack hresult).2 hallowed).trans h.counted
  · intro after hafter
    obtain ⟨before, hbefore, hgoes⟩ := perform_goes hpermitted hresult hafter
    exact hgoes.bound (h.bound before hbefore)
  · intro hcanceled after hafter
    obtain ⟨before, hbefore, hgoes⟩ := perform_goes hpermitted hresult hafter
    rcases mem_append.mp hcanceled with hcanceled | hcanceled
    · exact hgoes.final (h.final hcanceled before hbefore)
    cases hentries : result.entries with
    | nil => rw [hentries] at hcanceled; cases hcanceled
    | cons =>
    rw [hentries] at hcanceled hentered
    cases hentered with
    | canceled _ action item hstep hitem hswap hnext =>
      obtain rfl := RuntimeEntry.canceled.inj (mem_singleton.mp hcanceled)
      subst hstep
      obtain rfl := some.inj (hafter.symm.trans hnext)
      rw [(performAction_eq item action).1]
      refine BuildAction.final_of_canceling hpermitted hswap (h.bound item hitem) ?_
      rintro rfl
      exact ⟨((hok _ rest hcall).1 item hitem).2 rfl, h.swapped .cancel hmem item hitem⟩
    | registered | released | executed | actived | usedFreed =>
      cases mem_singleton.mp hcanceled
  · intro settle hother after hafter
    rcases mem_advanceCall.mp hother with hother | hother
    · exact (permitted_more hpermitted hresult _ hother).2 settle rfl after hafter
    · obtain ⟨before, hbefore, hgoes⟩ := perform_goes hpermitted hresult hafter
      exact fun hnone => h.swapped settle (mem_of_advance hcall hother) before hbefore
        (hgoes.fresh hnone)
  · intro other hother
    rcases mem_advanceCall.mp hother with hother | hother
    · exact (permitted_more (a := a) hpermitted hresult other hother).1
    · exact h.permitted other (mem_of_advance hcall hother)
  · show Justified (NotAfter a) (run.history ++ result.entries)
    have hother : ∀ {entry}, entry ≠ .executed a → entry ≠ .actived a →
        Justified (NotAfter a) (run.history ++ [entry]) := by
      intro entry hexecuted hactived
      exact h.after.concat fun hor => (hor.elim hexecuted hactived).elim
    cases hentries : result.entries with
    | nil => rw [append_nil]; exact h.after
    | cons =>
    rw [hentries] at hentered
    cases hentered with
    | registered | released | usedFreed | canceled => exact hother nofun nofun
    | executed b item hitem hfresh =>
      refine h.after.concat fun hor hcanceled => ?_
      obtain rfl : b = a := hor.elim RuntimeEntry.executed.inj nofun
      have hfinal := h.final hcanceled item hitem
      rw [hfresh] at hfinal
      cases hfinal
    | actived b hstep =>
      refine h.after.concat fun hor => ?_
      obtain rfl : b = a := hor.elim nofun RuntimeEntry.actived.inj
      exact (hok _ rest hcall).2.1 hstep
  intro hused
  rcases mem_append.mp hused with hused | hused
  · exact h.safe hused
  cases hentries : result.entries with
  | nil => rw [hentries] at hused; cases hused
  | cons =>
  rw [hentries] at hused hentered
  cases hentered with
  | usedFreed _ localEndpoint remoteEndpoint hstep hfreed =>
    obtain rfl := RuntimeEntry.usedFreed.inj (mem_singleton.mp hused)
    exact (hok _ rest hcall).2.2 localEndpoint remoteEndpoint hstep hfreed
  | registered | released | executed | actived | canceled =>
    cases mem_singleton.mp hused

/-! ## The calls begin -/

theorem Tracked.begin (h : Tracked a run) (hreleasing : ∀ holder, releasing a holder step = 0)
    (hends : ends a step = 0) (hreferencing : referencing a step = 0) (hcancels : cancels a step = 0)
    (hadding : adding a step = 0) (hpermitted : Permitted step)
    (hcancel : ∀ action, step ≠ .cancel a action) :
    Tracked a { run with calls := run.calls ++ [[step]] } := by
  have hweight : ∀ f : RuntimeStep → Int, f step = 0 →
      weight f (run.calls ++ [[step]]) = weight f run.calls := by
    intro f hf
    rw [weight_begin, map_singleton, sum_singleton, hf, Int.add_zero]
  have hmem : ∀ other ∈ (run.calls ++ [[step]]).flatten, other ∈ run.calls.flatten ∨ other = step := by
    intro other hother
    rw [flatten_append, flatten_singleton, mem_append] at hother
    exact hother.imp_right mem_singleton.mp
  exact
    { h with
      creator := h.creator.trans (hweight _ (hreleasing .creator)).symm
      report := h.report.trans (hweight _ (hreleasing .report)).symm
      execution := by rw [hweight _ hends]; exact h.execution
      mapping := by rw [hweight _ hreferencing]; exact h.mapping
      canceled := by rw [hweight _ hcancels]; exact h.canceled
      released := by rw [hweight _ (hreleasing .runtime)]; exact h.released
      added := by rw [hweight _ hadding]; exact h.added
      swapped := fun settle hother => by
        rcases hmem _ hother with hother | heq
        · exact h.swapped settle hother
        · exact absurd heq.symm (hcancel _)
      permitted := fun other hother => by
        rcases hmem other hother with hother | rfl
        · exact h.permitted other hother
        · exact hpermitted }

theorem Tracked.due_le (h : Tracked a run) : run.runtime.due a ≤ born a run := by
  have hadded := h.added
  have hnonneg : 0 ≤ weight (adding a) run.calls := by
    refine mine_weight_nonneg (a := a) (fun step => ?_) run.calls
    cases step with
    | addBuildingTunnelAction _ _ b => exact .inr ⟨b, rfl⟩
    | _ => exact .inl rfl
  have hmapped : 0 ≤ run.runtime.mapped a := Int.natCast_nonneg _
  unfold due
  split <;> omega

theorem cancels_weight_nonneg (a : Nat) (calls : List (List RuntimeStep)) :
    0 ≤ weight (cancels a) calls := by
  refine mine_weight_nonneg (a := a) (fun step => ?_) calls
  cases step with
  | cancel b => exact .inr ⟨b, rfl⟩
  | _ => exact .inl rfl

theorem born_le (a : Nat) (run : RuntimeRun) : born a run ≤ 1 := by
  unfold born
  split <;> decide

theorem Tracked.unborn (h : Tracked a run) (hunborn : born a run = 0) :
    .canceled a ∉ run.history ∧ ∀ action, .cancel a action ∉ run.calls.flatten := by
  have hdue := h.due_le
  have hcanceled := h.canceled
  have hnonneg := cancels_weight_nonneg a run.calls
  refine ⟨fun hmem => ?_, fun action hmem => ?_⟩
  · have hpos := count_pos_iff.mpr hmem
    omega
  obtain ⟨steps, hsteps, hmem⟩ := mem_flatten.mp hmem
  have hle : cancels a (.cancel a action) ≤ weight (cancels a) run.calls := by
    refine le_weight (fun step => ?_) hsteps hmem
    unfold cancels
    split
    · exact mine_nonneg a _
    · exact Int.le_refl 0
  have hone : cancels a (.cancel a action) = 1 := mine_self a
  omega

/-- The run after an action is created, and the call that adds it begins. -/
def create (run : RuntimeRun) (localEndpoint remoteEndpoint : BdtEndpoint) (onCanceled : Bool)
    (callbacks : BuildActionCallbacks) (actived : Bool) : RuntimeRun :=
  { run with
    runtime := run.runtime.create { action := { onCanceled } }
    calls := run.calls ++
      [[.addBuildingTunnelAction localEndpoint remoteEndpoint run.runtime.actions.length callbacks
          actived,
        .release run.runtime.actions.length .creator]] }

theorem born_create (a : Nat) (run : RuntimeRun) (localEndpoint remoteEndpoint : BdtEndpoint)
    (onCanceled : Bool) (callbacks : BuildActionCallbacks) (actived : Bool) :
    born a (run.create localEndpoint remoteEndpoint onCanceled callbacks actived) =
      born a run + mine a run.runtime.actions.length := by
  unfold born mine create BuildActionRuntime.create
  dsimp only
  rw [length_append, length_singleton]
  split <;> split <;> split <;> omega

theorem Tracked.create (h : Tracked a run) (localEndpoint remoteEndpoint : BdtEndpoint)
    (onCanceled : Bool) (callbacks : BuildActionCallbacks) (actived : Bool) :
    Tracked a (run.create localEndpoint remoteEndpoint onCanceled callbacks actived) := by
  have hborn := born_create a run localEndpoint remoteEndpoint onCanceled callbacks actived
  have hheld := heldBy_create a run.runtime { action := { onCanceled } }
  have hweight : ∀ f : RuntimeStep → Int,
      weight f (run.create localEndpoint remoteEndpoint onCanceled callbacks actived).calls =
        weight f run.calls +
          (f (.addBuildingTunnelAction localEndpoint remoteEndpoint run.runtime.actions.length
            callbacks actived) + (f (.release run.runtime.actions.length .creator) + 0)) :=
    fun f => weight_begin f run.calls _
  have hunborn : run.runtime.actions.length = a → born a run = 0 := by
    rintro rfl
    exact if_neg (Nat.lt_irrefl _)
  have hmem : ∀ step ∈ (run.create localEndpoint remoteEndpoint onCanceled callbacks
      actived).calls.flatten, step ∈ run.calls.flatten ∨
        step = .addBuildingTunnelAction localEndpoint remoteEndpoint run.runtime.actions.length
          callbacks actived ∨ step = .release run.runtime.actions.length .creator := by
    intro step hstep
    unfold RuntimeRun.create at hstep
    simpa using hstep
  constructor
  · have hbefore := h.creator
    have hchange := hheld .creator
    rw [hweight]
    show (run.runtime.create _).heldBy a .creator = _ + (0 + (mine a _ + 0))
    rw [hchange]
    show _ + mine a _ * 1 = _
    omega
  · have hbefore := h.report
    have hchange := hheld .report
    rw [hweight]
    show (run.runtime.create _).heldBy a .report = _ + (0 + (0 + 0))
    rw [hchange]
    show _ + mine a _ * 0 = _
    omega
  · have hbefore := h.execution
    have hchange := hheld .execution
    have hidle := idle_create a run.runtime { action := { onCanceled } }
    rw [hweight]
    show (run.runtime.create _).heldBy a .execution = (run.runtime.create _).idle a + (_ + (0 + (0 + 0)))
    rw [hchange, hidle]
    show _ + mine a _ * 0 = _ + mine a _ * 0 + _
    omega
  · have hbefore := h.mapping
    have hchange := hheld .runtime
    rw [hweight]
    show (run.runtime.create _).heldBy a .runtime + (_ + (0 + (0 + 0))) + _ = run.runtime.mapped a
    rw [hchange]
    show _ + mine a _ * 0 + _ + run.history.count (.released a) = _
    omega
  · have hbefore := h.canceled
    rw [hweight]
    show _ + (0 + (0 + 0)) + run.history.count (.canceled a) = run.runtime.due a
    omega
  · have hbefore := h.released
    rw [hweight]
    show _ + (0 + (0 + 0)) + run.history.count (.released a) = run.runtime.due a
    omega
  · have hbefore := h.added
    rw [hweight, hborn]
    show _ + (mine a _ + (0 + 0)) + run.runtime.mapped a ≤ _
    omega
  · exact h.registered
  · have hbefore := h.executed
    have hfresh := fresh_create a run.runtime { action := { onCanceled } }
    rw [hborn]
    show run.history.count (.executed a) + (run.runtime.create _).fresh a ≤ _
    rw [hfresh]
    show _ + (_ + mine a _ * 1) ≤ _
    omega
  · have hslack := slack_create a run.runtime { action := { onCanceled } }
    show (run.runtime.create _).slack a = 0
    rw [hslack, h.counted]
    show 0 + mine a _ * (1 - 1) = 0
    omega
  · intro item hitem
    rcases create_get hitem with hitem | ⟨-, rfl⟩
    · exact h.bound item hitem
    · exact nofun
  · intro hcanceled item hitem
    rcases create_get hitem with hitem | ⟨hlength, -⟩
    · exact h.final hcanceled item hitem
    · exact absurd hcanceled (h.unborn (hunborn hlength)).1
  · intro settle hswap item hitem
    rcases hmem _ hswap with hswap | hswap | hswap
    · rcases create_get hitem with hitem | ⟨hlength, -⟩
      · exact h.swapped settle hswap item hitem
      · exact absurd hswap ((h.unborn (hunborn hlength)).2 _)
    · cases hswap
    · cases hswap
  · intro step hstep
    rcases hmem step hstep with hstep | rfl | rfl
    · exact h.permitted step hstep
    · exact trivial
    · exact nofun
  · exact h.after
  · exact h.safe

theorem handle_step (hcall : run.calls[i]? = some (step :: rest)) :
    handle run (.step i) = (run.runtime.perform step).map (run.advance i rest) := by
  unfold handle
  dsimp only
  rw [hcall]
  rfl

theorem step_cases (hnext : RuntimeRun.handle run (.step i) = some next) : ∃ step rest,
    run.calls[i]? = some (step :: rest) ∧ ∃ result, run.runtime.perform step = some result ∧
      next = run.advance i rest result := by
  cases hcall : run.calls[i]? with
  | none => simp [RuntimeRun.handle, hcall] at hnext
  | some steps =>
    cases steps with
    | nil => simp [RuntimeRun.handle, hcall] at hnext
    | cons step rest =>
      rw [handle_step hcall] at hnext
      obtain ⟨result, hresult, rfl⟩ := map_eq_some_iff.mp hnext
      exact ⟨step, rest, rfl, result, hresult, rfl⟩

theorem Tracked.handle (h : Tracked a run) (event : RuntimeEvent) (hok : InTurn a run event)
    (hnext : RuntimeRun.handle run event = some next) : Tracked a next := by
  cases event with
  | add localEndpoint remoteEndpoint onCanceled callbacks actived =>
    obtain rfl := some.inj hnext
    exact h.create localEndpoint remoteEndpoint onCanceled callbacks actived
  | active =>
    unfold RuntimeRun.handle at hnext
    dsimp only at hnext
    split at hnext
    case isTrue =>
      obtain rfl := some.inj hnext
      exact h.begin (fun _ => rfl) rfl rfl rfl rfl trivial nofun
    case isFalse => cases hnext
  | finish =>
    obtain rfl := some.inj hnext
    exact h.begin (fun _ => rfl) rfl rfl rfl rfl trivial nofun
  | settle action settle =>
    unfold RuntimeRun.handle at hnext
    dsimp only at hnext
    split at hnext
    case isTrue =>
      obtain rfl := some.inj hnext
      have hends : ends a (.run action settle.step) = 0 := by
        cases settle <;> exact Int.mul_zero _
      have hpermitted : Permitted (.run action settle.step) := by
        cases settle <;> rfl
      exact h.begin (fun _ => rfl) hends rfl rfl rfl hpermitted nofun
    case isFalse => cases hnext
  | step =>
    obtain ⟨step, rest, hcall, result, hresult, rfl⟩ := step_cases hnext
    exact h.goes_on hcall hok hresult

/-- What is counted once at most has no step to be done when it is counted in full. -/
theorem Tracked.finishes (h : Tracked a run) : Finishes a run := by
  have hborn := born_le a run
  have hdue := h.due_le
  have hcancels := cancels_weight_nonneg a run.calls
  have hreleases := weight_nonneg (releasing_nonneg a .runtime) run.calls
  have hcanceled := h.canceled
  have hreleased := h.released
  refine ⟨?_, ?_, ?_, ?_, h.final, h.after, h.safe, ?_⟩
  · have hexecuted := h.executed
    have hfresh : 0 ≤ run.runtime.fresh a := by
      unfold fresh
      cases run.runtime.actions[a]? with
      | none => exact Int.le_refl 0
      | some item =>
        show 0 ≤ if item.action.state = .none then (1 : Int) else 0
        split <;> decide
    omega
  · omega
  · omega
  · intro hfinished hnone hregistered
    have hpos := count_pos_iff.mpr hregistered
    have hmapped := h.registered
    have hfull : run.runtime.due a = run.runtime.mapped a := if_pos hfinished
    have hzero : ∀ f : RuntimeStep → Int, (∀ step, f step ≠ 0 → ofFinish a step = true) →
        weight f run.calls = 0 := by
      intro f hf
      by_contra hne
      obtain ⟨step, hmem, hstep⟩ := exists_of_weight hne
      exact absurd (hf step hstep) (Bool.eq_false_iff.mp (hnone step hmem))
    have hmine : ∀ {b}, mine a b ≠ 0 → b = a := fun hne => by_contra fun h => hne (if_neg h)
    have hcancel := hzero (cancels a) fun step hstep => by
      cases step with
      | cancel => exact decide_eq_true (hmine hstep)
      | _ => exact absurd rfl hstep
    have hrelease := hzero (releasing a .runtime) fun step hstep => by
      cases step with
      | release =>
        unfold releasing at hstep
        dsimp only at hstep
        split at hstep
        case isTrue hholder => simp [ofFinish, hholder, hmine hstep]
        case isFalse => exact absurd rfl hstep
      | _ => exact absurd rfl hstep
    exact ⟨count_pos_iff.mp (by omega), count_pos_iff.mp (by omega)⟩
  intro item hitem
  have hcounted := h.counted
  unfold slack at hcounted
  rw [hitem] at hcounted
  replace hcounted : item.refCount - item.holders.length = 0 := hcounted
  omega

/-! ## The steps that are not in turn -/

/-- There are never more references than the holders have taken. -/
theorem handle_slack (event : RuntimeEvent) (h : run.runtime.slack a ≤ 0)
    (hnext : handle run event = some next) : next.runtime.slack a ≤ 0 := by
  cases event with
  | add _ _ onCanceled =>
    obtain rfl := some.inj hnext
    have hslack := slack_create a run.runtime { action := { onCanceled } }
    show (run.runtime.create _).slack a ≤ 0
    rw [hslack]
    show _ + mine a _ * (1 - 1) ≤ 0
    omega
  | active | settle =>
    unfold handle at hnext
    dsimp only at hnext
    split at hnext
    case isTrue => exact some.inj hnext ▸ h
    case isFalse => cases hnext
  | finish => exact some.inj hnext ▸ h
  | step =>
    obtain ⟨step, rest, -, result, hresult, rfl⟩ := step_cases hnext
    exact (perform_slack hresult).1.trans h

theorem not_counted (h : runtime.slack a ≤ 0) (hitem : runtime.actions[a]? = some item)
    (hnot : .runtime ∉ item.holders) : ∃ result,
      runtime.perform (.release a .runtime) = some result ∧
        ∃ after, result.next.actions[a]? = some after ∧ after.refCount < after.holders.length := by
  unfold slack at h
  rw [hitem] at h
  replace h : item.refCount - item.holders.length ≤ 0 := h
  unfold BuildActionRuntime.perform
  dsimp only
  rw [hitem]
  refine ⟨_, rfl, item.release .runtime, ?_, ?_⟩
  · exact getElem?_set_at hitem _
  unfold RuntimeAction.release
  dsimp only
  rw [erase_of_not_mem hnot]
  omega

/-- The last swap of a cancel does nothing to an action that is executing. -/
theorem not_settled
    (hitem : runtime.actions[a]? = some item) (hstate : item.action.state = .executing) :
    ∃ result, runtime.perform (.cancel a (.settleExecuted .cancel)) = some result ∧
      .canceled a ∈ result.entries ∧
      ∃ after, result.next.actions[a]? = some after ∧ isFinal after.action.state = false := by
  unfold BuildActionRuntime.perform
  dsimp only
  rw [hitem]
  have hmore : (item.action.perform (.settleExecuted .cancel)).more.any (·.isSwap) = false := by
    simp [BuildAction.perform, hstate]
  refine ⟨_, rfl, ?_, performAction item (.settleExecuted .cancel), ?_, ?_⟩
  · dsimp only
    rw [hmore]
    exact mem_singleton_self _
  · dsimp only
    rw [hmore]
    exact getElem?_set_at hitem _
  · rw [(performAction_eq item _).1]
    simp [BuildAction.perform, hstate, isFinal]

theorem not_finishes (hslack : run.runtime.slack a ≤ 0) (event : RuntimeEvent)
    (h : ¬ InTurn a run event) : ∃ next, handle run event = some next ∧ ¬ Finishes a next := by
  cases event with
  | add | active | settle | finish => exact absurd trivial h
  | step i =>
    have hcall : ∃ step rest, run.calls[i]? = some (step :: rest) := by
      by_contra hnone
      exact h fun step rest hcall => absurd ⟨step, rest, hcall⟩ hnone
    obtain ⟨step, rest, hcall⟩ := hcall
    rw [handle_step hcall]
    by_contra hgood
    have hkept : ∀ result, run.runtime.perform step = some result →
        Finishes a (run.advance i rest result) := by
      intro result hresult
      by_contra hnot
      exact hgood ⟨_, by rw [hresult]; rfl, hnot⟩
    refine h fun other others hother => ?_
    obtain ⟨rfl, rfl⟩ := cons.inj (some.inj (hcall.symm.trans hother))
    refine ⟨fun item hitem => ⟨?_, ?_⟩, ?_, ?_⟩
    · rintro rfl
      by_contra hnot
      obtain ⟨result, hresult, after, hafter, hlt⟩ := not_counted hslack hitem hnot
      have hle := (hkept result hresult).counted after hafter
      omega
    · rintro rfl hstate
      obtain ⟨result, hresult, hmem, after, hafter, hnot⟩ := not_settled hitem hstate
      have hfinal := (hkept result hresult).settled (mem_append_right _ hmem) after hafter
      rw [hnot] at hfinal
      cases hfinal
    · rintro rfl hmem
      have hafter := (hkept _ rfl).after
      exact hafter run.history (.actived a) [] rfl (.inr rfl) hmem
    rintro localEndpoint remoteEndpoint rfl hfreed
    have hresult : run.runtime.perform (.activeBuildingTunnel localEndpoint remoteEndpoint a) =
        some { next := run.runtime, entries := [.usedFreed a] } := by
      rw [perform, if_pos hfreed]
    exact (hkept _ hresult).safe (mem_append_right _ (mem_singleton_self _))

/-- A runtime keeps its promises for an action throughout a run if and only if every step is in turn. -/
theorem finishes_iff (a : Nat) (events : List RuntimeEvent) :
    Throughout handle (Finishes a) {} events ↔ StepsMeet handle (InTurn a) {} events := by
  have hstep : ∀ run event next, Tracked a run → InTurn a run event →
      handle run event = some next → Tracked a next :=
    fun _ event _ h hok hnext => h.handle event hok hnext
  refine throughout_iff (tracked_start a) (fun _ h => h.finishes) hstep ?_
  intro front run event hfront _ hnot
  have hkept : ∀ run event next, run.runtime.slack a ≤ 0 → handle run event = some next →
      next.runtime.slack a ≤ 0 := fun _ event _ h hnext => handle_slack event h hnext
  have hstart : slack {} a ≤ 0 := Int.le_refl 0
  exact not_finishes (exec_preserves hkept hstart hfront) event hnot

theorem length_loopback : ([127, 0, 0, 1] ++ List.replicate 12 (0 : UInt8)).length = 16 :=
  rfl

/-- 127.0.0.1 over UDP. -/
def loopback (port : UInt16) : BdtEndpoint where
  flag := BDT_ENDPOINT_PROTOCOL_UDP ||| BDT_ENDPOINT_IP_VERSION_4
  port := port
  address := ⟨[127, 0, 0, 1] ++ List.replicate 12 0, length_loopback⟩

/-- A runtime that is finished between the section of an add and its `BuildActionAddRef` releases the
reference of the creator. -/
theorem finish_before_addRef : ∃ run,
    exec handle {}
      [.add (loopback 2024) (loopback 2025) false { resolve := true, reject := true } false, .finish,
        .step 0, .step 1, .step 1, .step 1, .step 1, .step 1] = some run ∧
    (run.runtime.actions[0]?).map (·.refCount) = some 0 ∧
    (run.runtime.actions[0]?).map (·.holders) = some [.creator] ∧ ¬ Finishes 0 run := by
  refine ⟨_, rfl, rfl, rfl, fun h => ?_⟩
  have hcounted := h.counted _ rfl
  exact absurd hcounted (by decide)

end RuntimeRun

end Bdt
