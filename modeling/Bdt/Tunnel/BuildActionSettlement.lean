import Bdt.Base.Transition
import Bdt.Tunnel.BuildAction

/-!
# Settlement of build actions

`settles_once_iff`: an action is settled once, in the state and with the handler of the call that
settles it, in every run in which no `BuildActionResolve` and no `BuildActionReject` comes while the
action is executing and no `BuildActionReject` takes effect afterwards, which swap the wrong state, and
no call that began before the execution is lost in it; and in no other run.
-/

namespace Bdt

open Base List

namespace BuildRun

/-! ## What is counted -/

/-- A call that has executed the action and has not swapped the state yet. -/
def executions : BuildActionStep → Int
  | .endExecute => 1
  | _ => 0

def finishing : BuildActionStep → Int
  | .finishExecute => 1
  | _ => 0

def handling (settle : Settle) : BuildActionStep → Int
  | .handle other => if other = settle then 1 else 0
  | _ => 0

/-- The calls that took effect. -/
def settledBy (history : List BuildActionEntry) : List Settle :=
  history.filterMap fun
    | .settled settle => some settle
    | _ => none

theorem executions_nonneg (step : BuildActionStep) : 0 ≤ executions step := by
  unfold executions
  split <;> decide

theorem finishing_nonneg (step : BuildActionStep) : 0 ≤ finishing step := by
  unfold finishing
  split <;> decide

theorem handling_nonneg (settle : Settle) (step : BuildActionStep) : 0 ≤ handling settle step := by
  unfold handling
  split
  · split <;> decide
  · exact Int.le_refl 0

variable {history : List BuildActionEntry} {settle : Settle}

theorem mem_settledBy : settle ∈ settledBy history ↔ .settled settle ∈ history := by
  unfold settledBy
  rw [mem_filterMap]
  constructor
  · rintro ⟨entry, hmem, heq⟩
    cases entry with
    | settled => exact Option.some.inj heq ▸ hmem
    | begun | asked | missed | finished => cases heq
    | handled => cases heq
  · exact fun hmem => ⟨_, hmem, rfl⟩

theorem handledCount_append (history more : List BuildActionEntry) (settle : Settle) :
    handledCount (history ++ more) settle =
      handledCount history settle + handledCount more settle :=
  countP_append

theorem handledCount_pos :
    0 < handledCount history settle ↔ ∃ called, .handled settle called ∈ history := by
  unfold handledCount
  rw [countP_pos_iff]
  constructor
  · rintro ⟨entry, hmem, heq⟩
    rcases of_decide_eq_true heq with rfl | rfl
    · exact ⟨true, hmem⟩
    · exact ⟨false, hmem⟩
  rintro ⟨called, hmem⟩
  refine ⟨_, hmem, decide_eq_true ?_⟩
  cases called with
  | true => exact .inl rfl
  | false => exact .inr rfl

/-- The calls of `endExecute` to come, those of `BuildActionFinishExecute`, the calls that took
effect and the handlers, to come or done. -/
structure Progress (calls : List (List BuildActionStep)) (history : List BuildActionEntry)
    (ends finishes : Int) (settled : List Settle) (handlers : Settle → Int) : Prop where
  ends : weight executions calls = ends
  finishes : weight finishing calls + history.count .finished = finishes
  settled : settledBy history = settled
  handlers : ∀ settle, weight (handling settle) calls + handledCount history settle = handlers settle

variable {run next : BuildRun} {calls : List (List BuildActionStep)}
  {history entries : List BuildActionEntry} {ends ends' finishes finishes' : Int}
  {settled settled' : List Settle} {handlers handlers' : Settle → Int} {i : Nat}
  {step : BuildActionStep} {rest more : List BuildActionStep} {settle : Settle}

theorem Progress.advance (h : Progress calls history ends finishes settled handlers)
    (hcall : calls[i]? = some (step :: rest)) (more : List BuildActionStep)
    (entries : List BuildActionEntry)
    (hends : ends + (more.map executions).sum = ends' + executions step)
    (hfinishes : finishes + (more.map finishing).sum + entries.count .finished =
      finishes' + finishing step)
    (hsettled : settled ++ settledBy entries = settled')
    (hhandlers : ∀ settle, handlers settle + (more.map (handling settle)).sum +
      handledCount entries settle = handlers' settle + handling settle step) :
    Progress (advanceCall calls i more rest) (history ++ entries) ends' finishes' settled'
      handlers' where
  ends := by
    have hweight := weight_advance executions more hcall
    have hbefore := h.ends
    omega
  finishes := by
    have hweight := weight_advance finishing more hcall
    have hbefore := h.finishes
    rw [count_append]
    omega
  settled := by
    rw [settledBy, filterMap_append]
    show settledBy history ++ settledBy entries = settled'
    rw [h.settled, hsettled]
  handlers := fun settle => by
    have hweight := weight_advance (handling settle) more hcall
    have hbefore := h.handlers settle
    have hafter := hhandlers settle
    rw [handledCount_append]
    omega

theorem Progress.begin (h : Progress calls history ends finishes settled handlers)
    (hentry : step.isEntry = true) :
    Progress (calls ++ [[step]]) history ends finishes settled handlers where
  ends := by
    rw [weight_begin, h.ends]
    cases step <;> first | exact Int.add_zero _ | cases hentry
  finishes := by
    rw [weight_begin]
    have hbefore := h.finishes
    cases step <;> first | exact (by simpa [finishing] using hbefore) | cases hentry
  settled := h.settled
  handlers := fun settle => by
    rw [weight_begin]
    have hbefore := h.handlers settle
    cases step <;> first | exact (by simpa [handling] using hbefore) | cases hentry

theorem mem_of_head (hcall : calls[i]? = some (step :: rest)) : step :: rest ∈ calls :=
  mem_of_getElem? hcall

theorem Progress.ne_end (h : Progress calls history 0 finishes settled handlers)
    (hcall : calls[i]? = some (step :: rest)) : step ≠ .endExecute := by
  rintro rfl
  have hle := le_weight executions_nonneg (mem_of_head hcall) mem_cons_self
  rw [h.ends] at hle
  exact absurd hle (by decide)

/-! ## How far an action is -/

/-- The place of one handler. -/
def only (settle other : Settle) : Int :=
  if settle = other then 1 else 0

/-- A settling call that has not done its last swap. -/
def settling : BuildActionStep → Bool
  | .cancelOld _ | .settleExecuted _ => true
  | _ => false

/-- How far an action is, that was settled in time. -/
inductive Stage (run : BuildRun) : Prop where
  | unexecuted (hstate : run.action.state = .none ∨ run.action.state = .bound)
      (hbegun : .begun ∉ run.history) (hasked : .asked ∉ run.history)
      (h : Progress run.calls run.history 0 0 [] fun _ => 0)
  /-- It was canceled before it was executed. -/
  | dropped (hstate : run.action.state = .canceled) (hbegun : .begun ∉ run.history)
      (hasked : .asked ∉ run.history) (h : Progress run.calls run.history 0 0 [] (only .cancel))
  | executing (hstate : run.action.state = .executing) (hasked : .asked ∉ run.history)
      (h : Progress run.calls run.history 1 0 [] fun _ => 0)
  | executed (hstate : run.action.state = .executed)
      (hasked : .asked ∈ run.history → ∃ step ∈ run.calls.flatten, settling step = true)
      (h : Progress run.calls run.history 0 0 [] fun _ => 0)
  /-- It was settled while it was executing. -/
  | deferred (settle : Settle) (hstate : run.action.state = settle.final)
      (h : Progress run.calls run.history 1 0 [settle] fun _ => 0)
  | settled (settle : Settle) (hstate : run.action.state = settle.final)
      (h : Progress run.calls run.history 0 1 [settle] (only settle))

/-- A step that changes neither the state nor what is counted. -/
theorem Stage.keep (h : Stage run) (hcall : run.calls[i]? = some (step :: rest))
    (hends : (more.map executions).sum = executions step)
    (hfinishes : (more.map finishing).sum + entries.count .finished = finishing step)
    (hhandlers : ∀ settle, (more.map (handling settle)).sum + handledCount entries settle =
      handling settle step)
    (hsettled : settledBy entries = []) (hbegun : .begun ∉ entries)
    (hasked : .asked ∈ entries → run.action.state = .executed)
    (hsettling : run.action.state = .executed → (settling step = true ∨ .asked ∈ entries) →
      ∃ other ∈ more, settling other = true) :
    Stage { run with calls := advanceCall run.calls i more rest
                     history := run.history ++ entries } := by
  have hprogress : ∀ {ends finishes settled handlers},
      Progress run.calls run.history ends finishes settled handlers →
      Progress (advanceCall run.calls i more rest) (run.history ++ entries) ends finishes settled
        handlers := by
    intro ends finishes settled handlers hp
    refine hp.advance hcall more entries (by rw [hends]) ?_ ?_ fun settle => ?_
    · rw [Int.add_assoc, hfinishes]
    · rw [hsettled, append_nil]
    · rw [Int.add_assoc, hhandlers]
  have hnotBegun : .begun ∉ run.history → .begun ∉ run.history ++ entries :=
    fun hnot hmem => (mem_append.mp hmem).elim hnot hbegun
  have hnotAsked : run.action.state ≠ .executed → .asked ∉ run.history →
      .asked ∉ run.history ++ entries := by
    intro hne hnot hmem
    rcases mem_append.mp hmem with hmem | hmem
    · exact hnot hmem
    · exact hne (hasked hmem)
  cases h with
  | unexecuted hstate hb ha hp =>
    have hne : run.action.state ≠ .executed := by
      rcases hstate with hstate | hstate <;> rw [hstate] <;> decide
    exact .unexecuted hstate (hnotBegun hb) (hnotAsked hne ha) (hprogress hp)
  | dropped hstate hb ha hp =>
    exact .dropped hstate (hnotBegun hb) (hnotAsked (by rw [hstate]; decide) ha) (hprogress hp)
  | executing hstate ha hp =>
    exact .executing hstate (hnotAsked (by rw [hstate]; decide) ha) (hprogress hp)
  | executed hstate ha hp =>
    refine .executed hstate (fun hmem => ?_) (hprogress hp)
    have hdone : (settling step = true ∨ .asked ∈ entries) →
        ∃ other ∈ (advanceCall run.calls i more rest).flatten, settling other = true := by
      intro hor
      obtain ⟨other, hother, hsettles⟩ := hsettling hstate hor
      exact ⟨other, mem_advanceCall.mpr (.inl hother), hsettles⟩
    rcases mem_append.mp hmem with hmem | hmem
    · obtain ⟨other, hother, hsettles⟩ := ha hmem
      rcases mem_or_advance hcall hother with rfl | hother
      · exact hdone (.inl hsettles)
      · exact ⟨other, mem_advanceCall.mpr (.inr hother), hsettles⟩
    · exact hdone (.inr hmem)
  | deferred settle hstate hp => exact .deferred settle hstate (hprogress hp)
  | settled settle hstate hp => exact .settled settle hstate (hprogress hp)

theorem Settle.final_ne (settle : Settle) : settle.final ≠ .none ∧ settle.final ≠ .bound ∧
    settle.final ≠ .executing ∧ settle.final ≠ .executed := by
  cases settle <;> decide

theorem Stage.of_fresh (h : Stage run)
    (hstate : run.action.state = .none ∨ run.action.state = .bound) :
    .begun ∉ run.history ∧ .asked ∉ run.history ∧
      Progress run.calls run.history 0 0 [] fun _ => 0 := by
  cases h with
  | unexecuted _ hbegun hasked h => exact ⟨hbegun, hasked, h⟩
  | dropped hother | executing hother | executed hother =>
    rw [hother] at hstate
    rcases hstate with hstate | hstate <;> cases hstate
  | deferred settle hother | settled settle hother =>
    have hne := Settle.final_ne settle
    rw [← hother] at hne
    exact (hstate.elim hne.1 hne.2.1).elim

theorem Stage.of_executing (h : Stage run) (hstate : run.action.state = .executing) :
    .asked ∉ run.history ∧ Progress run.calls run.history 1 0 [] fun _ => 0 := by
  cases h with
  | executing _ hasked h => exact ⟨hasked, h⟩
  | unexecuted hother =>
    rw [hstate] at hother
    rcases hother with hother | hother <;> cases hother
  | dropped hother | executed hother => cases hstate.symm.trans hother
  | deferred settle hother | settled settle hother =>
    exact absurd (hother.symm.trans hstate) (Settle.final_ne settle).2.2.1

theorem Stage.of_executed (h : Stage run) (hstate : run.action.state = .executed) :
    Progress run.calls run.history 0 0 [] fun _ => 0 := by
  cases h with
  | executed _ _ h => exact h
  | unexecuted hother =>
    rw [hstate] at hother
    rcases hother with hother | hother <;> cases hother
  | dropped hother | executing hother => cases hstate.symm.trans hother
  | deferred settle hother | settled settle hother =>
    exact absurd (hother.symm.trans hstate) (Settle.final_ne settle).2.2.2

/-- The states that callers pass. -/
def permitted : BuildActionStep → Prop
  | .beginExecute _ oldState | .cancel oldState | .cancelOld oldState =>
    oldState = .none ∨ oldState = .bound
  | _ => True

/-- The run after a step. -/
def advance (run : BuildRun) (i : Nat) (rest : List BuildActionStep) (result : BuildActionResult) :
    BuildRun where
  action := result.next
  calls := advanceCall run.calls i result.more rest
  history := run.history ++ result.entries

/-- The first swap of a settling call. A call to settle in time finds the action executing only if it
is a call of `BuildActionCancelImpl`. -/
theorem Stage.settleExecuting {behind : BuildActionStep} (h : Stage run)
    (hcall : run.calls[i]? = some (step :: rest)) (hexecutions : executions step = 0)
    (hfinishing : finishing step = 0) (hhandling : ∀ settle, handling settle step = 0)
    (hbehind : settling behind = true)
    (hok : settle ≠ .cancel → run.action.state ≠ .executing) :
    Stage (run.advance i rest (run.action.settleExecuting settle behind)) := by
  have hnext : executions behind = 0 ∧ finishing behind = 0 ∧ ∀ settle, handling settle behind = 0 := by
    cases behind <;> first | exact ⟨rfl, rfl, fun _ => rfl⟩ | cases hbehind
  unfold BuildAction.settleExecuting
  by_cases hstate : run.action.state = .executing
  · rw [if_pos hstate]
    obtain rfl : settle = .cancel := by
      by_contra hne
      exact hok hne hstate
    obtain ⟨-, hp⟩ := h.of_executing hstate
    refine .deferred .cancel rfl (hp.advance hcall [] [.asked, .settled .cancel] ?_ ?_ rfl ?_)
    · rw [hexecutions]; rfl
    · rw [hfinishing]; rfl
    · intro settle
      rw [hhandling]; rfl
  rw [if_neg hstate]
  have hcount : ∀ other, other = .begun ∨ other = .finished →
      other ∉ (if run.action.state = .executed then [.asked] else [] : List BuildActionEntry) := by
    intro other hor hmem
    split at hmem
    · obtain rfl := mem_singleton.mp hmem
      rcases hor with hor | hor <;> cases hor
    · cases hmem
  refine h.keep hcall ?_ ?_ ?_ ?_ (hcount _ (.inl rfl)) ?_ ?_
  · rw [hexecutions, map_singleton, sum_singleton, hnext.1]
  · rw [hfinishing, map_singleton, sum_singleton, hnext.2.1,
      count_eq_zero.mpr (hcount _ (.inr rfl))]
    rfl
  · intro settle
    rw [hhandling, map_singleton, sum_singleton, hnext.2.2]
    split <;> rfl
  · split <;> rfl
  · intro hmem
    by_contra hne
    rw [if_neg hne] at hmem
    cases hmem
  · exact fun _ _ => ⟨behind, mem_singleton_self _, hbehind⟩

theorem Stage.perform (h : Stage run) (hcall : run.calls[i]? = some (step :: rest))
    (hpermitted : permitted step)
    (hexecuting : step = .resolve ∨ step = .reject → run.action.state ≠ .executing)
    (hheard : ∀ settle, step = .settleExecuted settle → run.action.state ≠ .executing)
    (hexecuted : step = .settleExecuted .reject → run.action.state ≠ .executed) :
    Stage (run.advance i rest (run.action.perform step)) := by
  cases step with
  | listBuildActionAdd =>
    by_cases hstate : run.action.state = .none
    · obtain ⟨hbegun, hasked, hp⟩ := h.of_fresh (.inl hstate)
      have hnil := hp.advance hcall [] [] rfl rfl rfl fun _ => rfl
      refine .unexecuted (.inr ?_) ?_ ?_ ?_
      · show (if run.action.state = .none then _ else _ : BuildAction).state = .bound
        rw [if_pos hstate]
      · rwa [advance, BuildAction.perform, append_nil]
      · rwa [advance, BuildAction.perform, append_nil]
      · exact hnil
    · rw [BuildAction.perform, if_neg hstate]
      exact h.keep hcall rfl rfl (fun _ => rfl) rfl not_mem_nil (fun hmem => nomatch hmem)
        fun _ hor => by simp [settling] at hor
  | beginExecute _ oldState =>
    by_cases hstate : run.action.state = oldState
    · obtain ⟨hbegun, hasked, hp⟩ := h.of_fresh (hstate ▸ hpermitted)
      rw [BuildAction.perform, if_pos hstate]
      refine .executing rfl ?_ (hp.advance hcall [.endExecute] [.begun] rfl rfl rfl fun _ => rfl)
      intro hmem
      rcases mem_concat.mp hmem with hmem | hmem
      · exact hasked hmem
      · cases hmem
    · rw [BuildAction.perform, if_neg hstate]
      exact h.keep hcall rfl rfl (fun _ => rfl) rfl not_mem_nil (fun hmem => nomatch hmem)
        fun _ hor => by simp [settling] at hor
  | endExecute =>
    by_cases hstate : run.action.state = .executing
    · obtain ⟨hasked, hp⟩ := h.of_executing hstate
      rw [BuildAction.perform, if_pos hstate]
      refine .executed rfl (fun hmem => ?_) (hp.advance hcall [] [] rfl rfl rfl fun _ => rfl)
      rw [advance, append_nil] at hmem
      exact absurd hmem hasked
    rw [BuildAction.perform, if_neg hstate]
    cases h with
    | unexecuted _ _ _ hp | dropped _ _ _ hp | executed _ _ hp | settled _ _ hp =>
      exact absurd rfl (hp.ne_end hcall)
    | executing hother => exact absurd hother hstate
    | deferred settle hother hp =>
      have hmore : BuildAction.deferred run.action.state = [.handle settle, .finishExecute] := by
        rw [hother]
        cases settle <;> rfl
      rw [hmore]
      refine .settled settle hother (hp.advance hcall _ [] rfl rfl rfl fun other => ?_)
      simp [handling, only, handledCount]
  | resolve =>
    exact h.settleExecuting hcall rfl rfl (fun _ => rfl) rfl fun _ => hexecuting (.inl rfl)
  | reject =>
    exact h.settleExecuting hcall rfl rfl (fun _ => rfl) rfl fun _ => hexecuting (.inr rfl)
  | cancel =>
    exact h.settleExecuting hcall rfl rfl (fun _ => rfl) rfl fun hne => absurd rfl hne
  | cancelOld oldState =>
    by_cases hstate : run.action.state = oldState
    · obtain ⟨hbegun, hasked, hp⟩ := h.of_fresh (hstate ▸ hpermitted)
      rw [BuildAction.perform, if_pos hstate]
      refine .dropped rfl ?_ ?_ (hp.advance hcall [.handle .cancel] [] rfl rfl rfl fun other => ?_)
      · rwa [advance, append_nil]
      · rwa [advance, append_nil]
      · simp [handling, only, handledCount]
    · rw [BuildAction.perform, if_neg hstate]
      exact h.keep hcall rfl rfl (fun _ => rfl) rfl not_mem_nil (fun hmem => nomatch hmem)
        fun _ _ => ⟨_, mem_singleton_self _, rfl⟩
  | settleExecuted settle =>
    by_cases hstate : run.action.state = .executed
    · rw [BuildAction.perform, if_pos hstate]
      refine .settled settle ?_ ((h.of_executed hstate).advance hcall _ [.settled settle] rfl rfl rfl
        fun other => ?_)
      · cases settle with
        | resolve | cancel => rfl
        | reject => exact absurd hstate (hexecuted rfl)
      · simp [handling, only, handledCount]
    · rw [BuildAction.perform, if_neg hstate, if_neg (hheard settle rfl)]
      exact h.keep hcall rfl rfl (fun _ => rfl) rfl not_mem_nil (fun hmem => nomatch hmem)
        fun hother => absurd hother hstate
  | handle settle =>
    refine h.keep hcall rfl rfl (fun other => ?_) rfl ?_ ?_ fun _ hor => ?_
    · by_cases heq : settle = other <;> cases hcalled : run.action.hasHandler settle <;>
        simp [BuildAction.perform, hcalled, handling, handledCount, heq]
    · simp [BuildAction.perform]
    · simp [BuildAction.perform]
    · simp [BuildAction.perform, settling] at hor
  | finishExecute =>
    refine h.keep hcall rfl rfl (fun _ => rfl) rfl ?_ ?_ fun _ hor => ?_
    · simp [BuildAction.perform]
    · simp [BuildAction.perform]
    · simp [BuildAction.perform, settling] at hor

/-! ## Runs -/

/-- What holds in every run in time. -/
structure Timely (run : BuildRun) : Prop where
  stage : Stage run
  permitted : ∀ step ∈ run.calls.flatten, permitted step
  flags : ∀ settle called, .handled settle called ∈ run.history →
    called = run.action.hasHandler settle
  heard : .missed ∉ run.history

theorem timely_start (onCanceled : Bool) : Timely (start onCanceled) where
  stage := .unexecuted (.inl rfl) not_mem_nil not_mem_nil
    ⟨rfl, rfl, rfl, fun _ => rfl⟩
  permitted := fun _ hmem => nomatch hmem
  flags := fun _ _ hmem => nomatch hmem
  heard := not_mem_nil

theorem permitted_of_entry (h : step.isEntry = true) : permitted step := by
  cases step with
  | beginExecute | cancel =>
    simpa [BuildActionStep.isEntry, BuildRun.permitted] using h
  | listBuildActionAdd | resolve | reject => trivial
  | endExecute | finishExecute => cases h
  | cancelOld | settleExecuted | handle => cases h

theorem Timely.call (h : Timely run) (hentry : step.isEntry = true) :
    Timely { run with calls := run.calls ++ [[step]] } where
  stage := by
    cases h.stage with
    | unexecuted hstate hbegun hasked hp => exact .unexecuted hstate hbegun hasked (hp.begin hentry)
    | dropped hstate hbegun hasked hp => exact .dropped hstate hbegun hasked (hp.begin hentry)
    | executing hstate hasked hp => exact .executing hstate hasked (hp.begin hentry)
    | executed hstate hasked hp =>
      refine .executed hstate (fun hmem => ?_) (hp.begin hentry)
      obtain ⟨other, hother, hsettling⟩ := hasked hmem
      exact ⟨other, by rw [flatten_append]; exact mem_append_left _ hother, hsettling⟩
    | deferred settle hstate hp => exact .deferred settle hstate (hp.begin hentry)
    | settled settle hstate hp => exact .settled settle hstate (hp.begin hentry)
  permitted := by
    intro other hmem
    rw [flatten_append, mem_append] at hmem
    rcases hmem with hmem | hmem
    · exact h.permitted other hmem
    · obtain rfl := mem_singleton.mp hmem
      exact permitted_of_entry hentry
  flags := h.flags
  heard := h.heard

theorem permitted_more (action : BuildAction) (h : permitted step) :
    ∀ other ∈ (action.perform step).more, permitted other := by
  intro other hmem
  cases step with
  | listBuildActionAdd | handle | finishExecute => cases hmem
  | beginExecute =>
    simp only [BuildAction.perform] at hmem
    split at hmem
    · obtain rfl := mem_singleton.mp hmem
      trivial
    · cases hmem
  | endExecute =>
    simp only [BuildAction.perform, BuildAction.deferred] at hmem
    split at hmem
    · cases hmem
    · split at hmem <;> simp at hmem <;> rcases hmem with rfl | rfl <;> trivial
  | resolve | reject =>
    simp only [BuildAction.perform, BuildAction.settleExecuting] at hmem
    split at hmem
    · cases hmem
    · obtain rfl := mem_singleton.mp hmem
      trivial
  | cancel =>
    simp only [BuildAction.perform, BuildAction.settleExecuting] at hmem
    split at hmem
    · cases hmem
    · obtain rfl := mem_singleton.mp hmem
      exact h
  | cancelOld =>
    simp only [BuildAction.perform] at hmem
    split at hmem <;> obtain rfl := mem_singleton.mp hmem <;> trivial
  | settleExecuted =>
    simp only [BuildAction.perform] at hmem
    split at hmem
    · simp at hmem
      rcases hmem with rfl | rfl <;> trivial
    · cases hmem

theorem perform_hasHandler (action : BuildAction)
    (h : ∀ callbacks, step ≠ .beginExecute callbacks action.state) :
    (action.perform step).next.hasHandler = action.hasHandler := by
  cases step with
  | beginExecute callbacks oldState =>
    have hne : action.state ≠ oldState := fun heq => h callbacks (heq ▸ rfl)
    rw [BuildAction.perform, if_neg hne]
  | listBuildActionAdd | endExecute | cancelOld | settleExecuted =>
    unfold BuildAction.perform
    dsimp only
    split <;> rfl
  | resolve | reject | cancel =>
    unfold BuildAction.perform BuildAction.settleExecuting
    dsimp only
    split <;> rfl
  | handle | finishExecute => rfl

theorem handled_mem_perform {called : Bool} (action : BuildAction)
    (h : .handled settle called ∈ (action.perform step).entries) :
    called = action.hasHandler settle ∧ step = .handle settle := by
  cases step with
  | handle =>
    obtain ⟨rfl, rfl⟩ := BuildActionEntry.handled.inj (mem_singleton.mp h)
    exact ⟨rfl, rfl⟩
  | listBuildActionAdd => cases h
  | finishExecute => cases mem_singleton.mp h
  | endExecute | cancelOld | settleExecuted | beginExecute =>
    simp only [BuildAction.perform] at h
    split at h <;> simp at h
  | resolve | reject | cancel =>
    simp only [BuildAction.perform, BuildAction.settleExecuting] at h
    repeat' split at h
    all_goals simp at h

theorem missed_mem_perform (action : BuildAction)
    (h : .missed ∈ (action.perform step).entries) :
    action.state = .executing ∧ ∃ settle, step = .settleExecuted settle := by
  cases step with
  | settleExecuted settle =>
    refine ⟨?_, settle, rfl⟩
    simp only [BuildAction.perform] at h
    by_contra hstate
    rw [if_neg hstate] at h
    split at h <;> simp at h
  | listBuildActionAdd => cases h
  | handle | finishExecute => cases mem_singleton.mp h
  | endExecute | cancelOld | beginExecute =>
    simp only [BuildAction.perform] at h
    split at h <;> simp at h
  | resolve | reject | cancel =>
    simp only [BuildAction.perform, BuildAction.settleExecuting] at h
    repeat' split at h
    all_goals simp at h

theorem Timely.permitted_head (h : Timely run) (hcall : run.calls[i]? = some (step :: rest)) :
    BuildRun.permitted step :=
  h.permitted step (mem_flatten.mpr ⟨_, mem_of_head hcall, mem_cons_self⟩)

theorem Timely.goes_on (h : Timely run) (hcall : run.calls[i]? = some (step :: rest))
    (hok : InTime run (.step i)) : Timely (run.advance i rest (run.action.perform step)) where
  stage :=
    have hin := hok step rest hcall
    h.stage.perform hcall (h.permitted_head hcall) hin.1 hin.2.1 hin.2.2
  permitted := by
    intro other hother
    rcases mem_advanceCall.mp hother with hother | hother
    · exact permitted_more run.action (h.permitted_head hcall) other hother
    · exact h.permitted other (mem_of_advance hcall hother)
  flags := by
    intro settle called hmem
    by_cases hbegin : ∃ callbacks, step = .beginExecute callbacks run.action.state
    · -- no handler was reached before
      obtain ⟨callbacks, rfl⟩ := hbegin
      obtain ⟨-, -, hp⟩ := h.stage.of_fresh (h.permitted_head hcall)
      rcases mem_append.mp hmem with hmem | hmem
      · have hpos := handledCount_pos.mpr ⟨called, hmem⟩
        have hzero := hp.handlers settle
        have hnonneg := weight_nonneg (handling_nonneg settle) run.calls
        omega
      · cases (handled_mem_perform run.action hmem).2
    have hkept := perform_hasHandler run.action fun callbacks heq => hbegin ⟨callbacks, heq⟩
    show called = (run.action.perform step).next.hasHandler settle
    rw [hkept]
    rcases mem_append.mp hmem with hmem | hmem
    · exact h.flags settle called hmem
    · exact (handled_mem_perform run.action hmem).1
  heard := by
    intro hmem
    rcases mem_append.mp hmem with hmem | hmem
    · exact h.heard hmem
    · obtain ⟨hstate, settle, heq⟩ := missed_mem_perform run.action hmem
      exact (hok step rest hcall).2.1 settle heq hstate

theorem weight_of_returned {f : BuildActionStep → Int} (h : ∀ steps ∈ calls, steps = []) :
    weight f calls = 0 := by
  have hnil : calls.flatten = [] := flatten_eq_nil_iff.mpr h
  rw [weight, hnil]
  rfl

theorem Progress.handled_le (h : Progress calls history ends finishes settled handlers)
    (settle : Settle) : (handledCount history settle : Int) ≤ handlers settle := by
  have hnonneg := weight_nonneg (handling_nonneg settle) calls
  have hsum := h.handlers settle
  omega

theorem Progress.finished_le (h : Progress calls history ends finishes settled handlers) :
    (history.count .finished : Int) ≤ finishes := by
  have hnonneg := weight_nonneg finishing_nonneg calls
  have hsum := h.finishes
  omega

theorem only_le (settle other : Settle) : only settle other ≤ 1 := by
  unfold only
  split <;> decide

theorem Stage.progress (h : Stage run) : ∃ ends finishes settled handlers,
    Progress run.calls run.history ends finishes settled handlers ∧ finishes ≤ 1 ∧
      (∀ settle, handlers settle ≤ 1) ∧
      (∀ settle ∈ settled, run.action.state = settle.final) ∧
      (.begun ∈ run.history → ∀ settle, 0 < handlers settle → settle ∈ settled) := by
  have hzero : ∀ settle : Settle, (0 : Int) ≤ 1 := fun _ => by decide
  cases h with
  | unexecuted _ _ _ h | executing _ _ h | executed _ _ h =>
    exact ⟨_, _, _, _, h, by decide, hzero, fun _ hmem => absurd hmem not_mem_nil,
      fun _ _ hpos => absurd hpos (Int.lt_irrefl 0)⟩
  | dropped _ hbegun _ h =>
    exact ⟨_, _, _, _, h, by decide, only_le .cancel, fun _ hmem => absurd hmem not_mem_nil,
      fun hmem => absurd hmem hbegun⟩
  | deferred _ hstate h =>
    refine ⟨_, _, _, _, h, by decide, hzero, fun other hmem => ?_,
      fun _ _ hpos => absurd hpos (Int.lt_irrefl 0)⟩
    exact mem_singleton.mp hmem ▸ hstate
  | settled settle hstate h =>
    refine ⟨_, _, _, _, h, Int.le_refl 1, only_le settle, fun other hmem => ?_,
      fun _ other hpos => ?_⟩
    · exact mem_singleton.mp hmem ▸ hstate
    unfold only at hpos
    split at hpos
    case isTrue heq => exact mem_singleton.mpr heq.symm
    case isFalse => exact absurd hpos (Int.lt_irrefl 0)

theorem Timely.complete (h : Timely run) (hcalls : ∀ steps ∈ run.calls, steps = [])
    (hasked : .asked ∈ run.history) :
    ∃ settle, .settled settle ∈ run.history ∧
      .handled settle (run.action.hasHandler settle) ∈ run.history ∧ .finished ∈ run.history := by
  cases h.stage with
  | unexecuted _ _ hnot | dropped _ _ hnot | executing _ hnot => exact absurd hasked hnot
  | executed _ hpending =>
    obtain ⟨step, hmem, -⟩ := hpending hasked
    rw [flatten_eq_nil_iff.mpr hcalls] at hmem
    cases hmem
  | deferred _ _ hp =>
    have hends := hp.ends
    rw [weight_of_returned hcalls] at hends
    cases hends
  | settled settle _ hp =>
    refine ⟨settle, mem_settledBy.mp (hp.settled ▸ mem_singleton_self settle), ?_, ?_⟩
    · have hsum := hp.handlers settle
      have hone : only settle settle = 1 := if_pos rfl
      rw [weight_of_returned hcalls, hone] at hsum
      have hpos : 0 < handledCount run.history settle := by omega
      obtain ⟨called, hmem⟩ := handledCount_pos.mp hpos
      exact h.flags settle called hmem ▸ hmem
    have hsum := hp.finishes
    rw [weight_of_returned hcalls] at hsum
    have hpos : 0 < run.history.count .finished := by omega
    exact count_pos_iff.mp hpos

theorem Timely.settles_once (h : Timely run) : run.SettlesOnce := by
  obtain ⟨ends, finishes, settled, handlers, hp, hfinishes, hhandlers, hstate, hsettled⟩ :=
    h.stage.progress
  exact
    { final := fun settle hmem => hstate settle (hp.settled ▸ mem_settledBy.mpr hmem)
      handler := fun hbegun settle called hmem => by
        have hpos := handledCount_pos.mpr ⟨called, hmem⟩
        have hle := hp.handled_le settle
        have hin := hsettled hbegun settle (by omega)
        exact mem_settledBy.mp (hp.settled ▸ hin)
      once := fun settle => by
        have hle := hp.handled_le settle
        have hone := hhandlers settle
        omega
      finish := by
        have hle := hp.finished_le
        omega
      heard := h.heard
      complete := h.complete }

theorem handle_step (hcall : run.calls[i]? = some (step :: rest)) :
    handle run (.step i) = some (run.advance i rest (run.action.perform step)) := by
  unfold handle
  dsimp only
  rw [hcall]
  rfl

theorem Timely.handle (h : Timely run) (event : BuildEvent) (hok : InTime run event)
    (hnext : BuildRun.handle run event = some next) : Timely next := by
  cases event with
  | call =>
    unfold BuildRun.handle at hnext
    dsimp only at hnext
    split at hnext
    case isTrue hentry => exact Option.some.inj hnext ▸ h.call hentry
    case isFalse => cases hnext
  | step i =>
    cases hcall : run.calls[i]? with
    | none => simp [BuildRun.handle, hcall] at hnext
    | some steps =>
      cases steps with
      | nil => simp [BuildRun.handle, hcall] at hnext
      | cons =>
        rw [handle_step hcall] at hnext
        exact Option.some.inj hnext ▸ h.goes_on hcall hok

/-- A step out of time leaves a state that is not that of the call that took effect. -/
theorem not_settlesOnce_of_late (event : BuildEvent) (h : ¬ InTime run event) :
    ∃ next, handle run event = some next ∧ ¬ next.SettlesOnce := by
  cases event with
  | call => exact absurd trivial h
  | step i =>
    have hlate : ∃ step rest, run.calls[i]? = some (step :: rest) ∧
        ¬ ((step = .resolve ∨ step = .reject → run.action.state ≠ .executing) ∧
          (∀ settle, step = .settleExecuted settle → run.action.state ≠ .executing) ∧
          (step = .settleExecuted .reject → run.action.state ≠ .executed)) := by
      by_contra hnone
      exact h fun step rest hcall => by_contra fun hnot => hnone ⟨step, rest, hcall, hnot⟩
    obtain ⟨step, rest, hcall, hnot⟩ := hlate
    refine ⟨_, handle_step hcall, fun hgood => ?_⟩
    refine hnot ⟨fun hstep hstate => ?_, fun settle hstep hstate => ?_, fun hstep hstate => ?_⟩
    · rcases hstep with rfl | rfl
      · have hfinal := hgood.final .resolve
        simp [advance, BuildAction.perform, BuildAction.settleExecuting, hstate, Settle.final]
          at hfinal
      · have hfinal := hgood.final .reject
        simp [advance, BuildAction.perform, BuildAction.settleExecuting, hstate, Settle.final]
          at hfinal
    · subst hstep
      have hheard := hgood.heard
      simp [advance, BuildAction.perform, hstate] at hheard
    · subst hstep
      have hfinal := hgood.final .reject
      simp [advance, BuildAction.perform, hstate, Settle.final, Settle.swapped] at hfinal

/-- An action is settled once throughout a run if and only if every step is in time. -/
theorem settles_once_iff (onCanceled : Bool) (events : List BuildEvent) :
    Throughout handle SettlesOnce (start onCanceled) events ↔
      StepsMeet handle InTime (start onCanceled) events := by
  have hstep : ∀ run event next, Timely run → InTime run event → handle run event = some next →
      Timely next := fun _ event _ h hok hnext => h.handle event hok hnext
  refine throughout_iff (timely_start onCanceled) (fun _ h => h.settles_once) hstep ?_
  intro _ run event _ _ hlate
  exact not_settlesOnce_of_late event hlate

/-- `BuildActionResolve`, called by the execute function of an action, cancels it: the resolve handler
is never called. -/
theorem resolve_in_execute_cancels : ∃ run,
    exec handle (start true)
      [.call (.beginExecute { resolve := true, reject := true } .none), .step 0, .call .resolve,
        .step 1, .step 0, .step 0, .step 0] = some run ∧
      (∀ steps ∈ run.calls, steps = []) ∧ .settled .resolve ∈ run.history ∧
      run.action.state = .canceled ∧ .handled .cancel true ∈ run.history ∧ ¬ run.SettlesOnce := by
  refine ⟨_, rfl, by decide, by decide, rfl, by decide, fun h => ?_⟩
  exact absurd (h.final .resolve (by decide)) (by decide)

end BuildRun

end Bdt
