import Bdt.Tunnel.ListBuildAction

/-!
# What lists of build actions make of the answers

`combines_iff`: a list, whose execution has come to its end, combined the answers of its actions all
the time if and only if it has actions and the answers came in order. The answer that settles the
list is too early before the end of the execution: the list is canceled then, or an action that was
canceled is executed. A race never rejects, since no action is ever in the state that it looks for.
-/

namespace Bdt

open Base List Option

/-! ## One action -/

namespace BuildAction

theorem callAlone_answer (action : BuildAction) (answer : Answer) :
    action.callAlone answer.step =
      match action.state with
      | .executing => ({ action with state := .canceled }, none)
      | .executed => ({ action with state := .resolved }, some answer.settle)
      | _ => (action, none) := by
  obtain ⟨state, resolve, reject, onCanceled⟩ := action
  cases answer <;> cases state <;> rfl

theorem callAlone_cancel (action : BuildAction) :
    (action.callAlone (.cancel .bound)).1 =
      match action.state with
      | .bound | .executing | .executed => { action with state := .canceled }
      | _ => action := by
  obtain ⟨state, resolve, reject, onCanceled⟩ := action
  cases state <;> rfl

theorem callAlone_endExecute (action : BuildAction) :
    action.callAlone .endExecute =
      match action.state with
      | .executing => ({ action with state := .executed }, none)
      | .resolved => (action, some .resolve)
      | .rejected => (action, some .reject)
      | .canceled => (action, some .cancel)
      | _ => (action, none) := by
  obtain ⟨state, resolve, reject, onCanceled⟩ := action
  cases state <;> rfl

end BuildAction

namespace ListItem

variable {item next : ListItem} {answer : Answer}

/-- How the state of an action goes with what it answered. -/
structure Sound (item : ListItem) : Prop where
  answered : item.answer ≠ none → item.action.state = .resolved ∨ item.action.state = .canceled
  resolved : item.action.state = .resolved → item.answer ≠ none ∧ item.inside = false
  inside : item.inside = true → item.answer ≠ none ∧ item.action.state = .canceled
  bound : item.action.state ≠ .none ∧ item.action.state ≠ .rejected

/-- What an action goes on to be. -/
structure Follows (item next : ListItem) : Prop where
  answer : ∀ answer, item.answer = some answer → next.answer = some answer
  sound : item.Sound → next.Sound

theorem Follows.refl (item : ListItem) : item.Follows item :=
  ⟨fun _ => id, id⟩

theorem answers_iff : item.answers = true ↔
    item.action.state = .executing ∨ item.action.state = .executed := by
  unfold answers
  rw [Bool.or_eq_true, decide_eq_true_iff, decide_eq_true_iff]

/-- An action that takes answers has not given one. -/
theorem Sound.unanswered (h : item.Sound) (hanswers : item.answers = true) : item.answer = none := by
  by_contra hne
  rcases answers_iff.mp hanswers with hstate | hstate <;>
    rcases h.answered hne with hother | hother <;> cases hstate.symm.trans hother

/-- The item of a loop that cancels. -/
def canceled (item : ListItem) : ListItem :=
  { item with action := (item.action.callAlone (.cancel .bound)).1 }

theorem canceled_state (item : ListItem) : item.canceled.action.state =
    match item.action.state with
    | .bound | .executing | .executed => .canceled
    | state => state := by
  unfold canceled
  rw [BuildAction.callAlone_cancel]
  cases hstate : item.action.state <;> simp only [hstate]

theorem follows_canceled (item : ListItem) : item.Follows item.canceled where
  answer := fun _ => id
  sound := fun h => by
    have hstate := canceled_state item
    have hanswer : item.canceled.answer = item.answer := rfl
    have hinside : item.canceled.inside = item.inside := rfl
    obtain ⟨hanswered, hresolved, hin, hbound⟩ := h
    cases hbefore : item.action.state <;> rw [hbefore] at hstate hanswered hresolved hin hbound <;>
      exact ⟨by simp_all, by simp_all, by simp_all, by simp_all⟩

/-- What is left of an action that answers. -/
def settled (item : ListItem) (answer : Answer) : ListItem :=
  if item.answers then
    { action := (item.action.callAlone answer.step).1
      answer := some answer
      inside := item.action.state = .executing }
  else { item with action := (item.action.callAlone answer.step).1 }

theorem settled_answer (hanswers : item.answers = true) :
    (item.settled answer).answer = some answer := by
  unfold settled
  rw [if_pos hanswers]

theorem settled_of_executing (h : item.action.state = .executing) : item.settled answer =
    { action := { item.action with state := .canceled }, answer := some answer, inside := true } := by
  have hanswers := answers_iff.mpr (.inl h)
  unfold settled
  rw [if_pos hanswers, BuildAction.callAlone_answer, h]
  rfl

theorem settled_of_executed (h : item.action.state = .executed) : item.settled answer =
    { action := { item.action with state := .resolved }, answer := some answer, inside := false } := by
  have hanswers := answers_iff.mpr (.inr h)
  unfold settled
  rw [if_pos hanswers, BuildAction.callAlone_answer, h]
  rfl

theorem callAlone_of_ignored (h : item.answers = false) :
    item.action.callAlone answer.step = (item.action, none) := by
  have hne : item.action.state ≠ .executing ∧ item.action.state ≠ .executed := by
    rw [← not_or, ← answers_iff, h]
    exact Bool.false_ne_true
  rw [BuildAction.callAlone_answer]
  cases hstate : item.action.state <;> simp_all

theorem settled_of_ignored (h : item.answers = false) : item.settled answer = item := by
  unfold settled
  rw [if_neg (by rw [h]; exact Bool.false_ne_true), callAlone_of_ignored h]

theorem Sound.follows_settled (h : item.Sound) (answer : Answer) :
    item.Follows (item.settled answer) := by
  cases hanswers : item.answers with
  | false =>
    rw [settled_of_ignored hanswers]
    exact .refl item
  | true =>
    have hnone := h.unanswered hanswers
    rcases answers_iff.mp hanswers with hstate | hstate
    · rw [settled_of_executing hstate]
      exact ⟨fun _ hsome => by simp [hnone] at hsome, fun _ =>
        ⟨fun _ => .inr rfl, fun h => by simp at h, fun _ => ⟨by simp, rfl⟩, by simp⟩⟩
    · rw [settled_of_executed hstate]
      exact ⟨fun _ hsome => by simp [hnone] at hsome, fun _ =>
        ⟨fun _ => .inl rfl, fun _ => ⟨by simp, rfl⟩, fun h => by simp at h, by simp⟩⟩

/-- An action that has not answered goes on to be executed. -/
theorem follows_of_unanswered {action : BuildAction}
    (hbefore : item.action.state = .bound ∨ item.action.state = .executing)
    (hafter : action.state = .executing ∨ action.state = .executed) :
    item.Follows { item with action } where
  answer := fun _ => id
  sound := fun h => by
    have hnone : item.answer = none := by
      by_contra hne
      rcases hbefore with hbefore | hbefore <;> rcases h.answered hne with hstate | hstate <;>
        cases hbefore.symm.trans hstate
    have hout : item.inside ≠ true := fun htrue => (h.inside htrue).1 hnone
    refine ⟨fun hne => absurd hnone hne, fun hstate => ?_, fun htrue => absurd htrue hout, ?_⟩
    · replace hstate : action.state = .resolved := hstate
      rcases hafter with hafter | hafter <;> cases hafter.symm.trans hstate
    · show action.state ≠ .none ∧ action.state ≠ .rejected
      rcases hafter with hafter | hafter <;> rw [hafter] <;> exact ⟨nofun, nofun⟩

theorem follows_endExecute (item : ListItem) :
    item.Follows { item with action := (item.action.callAlone .endExecute).1 } := by
  rw [BuildAction.callAlone_endExecute]
  cases hstate : item.action.state with
  | executing => exact follows_of_unanswered (.inr hstate) (.inr rfl)
  | none | bound | executed | resolved | rejected | canceled => exact .refl item

end ListItem

namespace ListBuildAction

variable {list next last : ListBuildAction} {item after : ListItem} {answer : Answer} {i : Nat}

/-! ## One call of a list -/

/-- What becomes of a list and its actions. -/
structure Keeps (list next : ListBuildAction) : Prop where
  kind : next.kind = list.kind
  length : next.actions.length = list.actions.length
  items : ∀ (i : Nat) item, list.actions[i]? = some item →
    ∃ after, next.actions[i]? = some after ∧ item.Follows after

theorem Keeps.refl (list : ListBuildAction) : list.Keeps list :=
  ⟨rfl, rfl, fun _ item hget => ⟨item, hget, .refl item⟩⟩

theorem Keeps.trans (h : list.Keeps next) (hnext : next.Keeps last) : list.Keeps last where
  kind := hnext.kind.trans h.kind
  length := hnext.length.trans h.length
  items := by
    intro i item hget
    obtain ⟨between, hbetween, hfirst⟩ := h.items i item hget
    obtain ⟨after, hafter, hsecond⟩ := hnext.items i between hbetween
    exact ⟨after, hafter, fun answer hsome => hsecond.answer answer (hfirst.answer answer hsome),
      fun hsound => hsecond.sound (hfirst.sound hsound)⟩

theorem keeps_of_actions (hkind : next.kind = list.kind) (hactions : next.actions = list.actions) :
    list.Keeps next where
  kind := hkind
  length := by rw [hactions]
  items := fun i item hget => ⟨item, by rw [hactions, hget], .refl item⟩

/-- The item that an item of the next list comes from. -/
theorem Keeps.before (h : list.Keeps next) (hget : next.actions[i]? = some after) :
    ∃ item, list.actions[i]? = some item ∧ item.Follows after := by
  have hlt := (List.getElem?_eq_some_iff.mp hget).1
  rw [h.length] at hlt
  have hbefore := List.getElem?_eq_getElem hlt
  obtain ⟨other, hother, hfollows⟩ := h.items i _ hbefore
  obtain rfl := some.inj (hother.symm.trans hget)
  exact ⟨_, hbefore, hfollows⟩

theorem Keeps.decided (h : list.Keeps next) (hdecided : list.Decided) : next.Decided := by
  obtain ⟨item, hmem, hanswer⟩ := hdecided
  obtain ⟨i, hget⟩ := List.mem_iff_getElem?.mp hmem
  obtain ⟨after, hafter, hfollows⟩ := h.items i item hget
  exact ⟨after, List.mem_of_getElem? hafter, by rw [h.kind]; exact hfollows.answer _ hanswer⟩

theorem Keeps.unanimous (h : list.Keeps next) (hunanimous : list.Unanimous) : next.Unanimous := by
  intro after hmem
  obtain ⟨i, hget⟩ := List.mem_iff_getElem?.mp hmem
  obtain ⟨item, hitem, hfollows⟩ := h.before hget
  rw [h.kind]
  exact hfollows.answer _ (hunanimous item (List.mem_of_getElem? hitem))

/-- All actions are as they should be. -/
def Sound (list : ListBuildAction) : Prop :=
  ∀ item ∈ list.actions, item.Sound

theorem Keeps.sound (h : list.Keeps next) (hsound : list.Sound) : next.Sound := by
  intro after hmem
  obtain ⟨i, hget⟩ := List.mem_iff_getElem?.mp hmem
  obtain ⟨item, hitem, hfollows⟩ := h.before hget
  exact hfollows.sound (hsound item (List.mem_of_getElem? hitem))

theorem keeps_set (hget : list.actions[i]? = some item) (hfollows : item.Follows after)
    (control : ListControl) :
    list.Keeps { list with actions := list.actions.set i after, control } where
  kind := rfl
  length := length_set
  items := by
    intro k other hother
    show ∃ found, (list.actions.set i after)[k]? = some found ∧ _
    by_cases heq : i = k
    · subst heq
      obtain rfl := some.inj (hget.symm.trans hother)
      exact ⟨after, getElem?_set_at hget after, hfollows⟩
    · exact ⟨other, by rw [List.getElem?_set_ne heq, hother], .refl other⟩

theorem keeps_cancelActions (list : ListBuildAction) : list.Keeps list.cancelActions where
  kind := rfl
  length := length_map _
  items := by
    intro i item hget
    refine ⟨item.canceled, ?_, item.follows_canceled⟩
    show (list.actions.map ListItem.canceled)[i]? = _
    rw [List.getElem?_map, hget]
    rfl

theorem callBase_answer (list : ListBuildAction) (answer : Answer) :
    list.callBase answer.step =
      match list.base.state with
      | .executing => { list with base := { list.base with state := .canceled } }
      | .executed =>
        { list with
          base := { list.base with state := .resolved }
          handlers := list.handlers ++ [answer.settle] }
      | _ => list := by
  unfold callBase
  rw [BuildAction.callAlone_answer]
  cases hstate : list.base.state <;> cases answer <;> simp [Answer.settle]

theorem callBase_endExecute (list : ListBuildAction)
    (hstate : list.base.state = .executing ∨ list.base.state = .canceled) :
    list.callBase .endExecute =
      if list.base.state = .executing then
        { list with base := { list.base with state := .executed } }
      else ({ list with handlers := list.handlers ++ [.cancel] } : ListBuildAction).cancelActions := by
  unfold callBase
  rw [BuildAction.callAlone_endExecute]
  rcases hstate with hstate | hstate <;> rw [hstate] <;> simp

/-- The state that the handler of the other answer looks for. -/
def agreed : ListKind → BuildActionState
  | .all => .resolved
  | .race => .rejected

theorem handler_answer (list : ListBuildAction) (answer : Answer) :
    list.handler (some answer.settle) =
      if answer = list.kind.decisive then list.cancelActions.callBase answer.step
      else if list.actions.all fun item => item.action.state = agreed list.kind then
        list.callBase answer.step
      else list := by
  unfold handler
  cases hkind : list.kind <;> cases answer <;> rfl

theorem settleItem_eq (list : ListBuildAction) (i : Nat) (item : ListItem) (answer : Answer) :
    list.settleItem i item answer =
      ({ list with actions := list.actions.set i (item.settled answer) } : ListBuildAction).handler
        (item.action.callAlone answer.step).2 := rfl

/-! ## Before the end of the execution -/

/-- The execution of a list goes on. -/
def busy (list : ListBuildAction) : Prop :=
  list.control ≠ .done ∧ list.control ≠ .failed

/-- Nothing is settled before the end of the execution. -/
structure Underway (list : ListBuildAction) : Prop where
  handlers : list.handlers = []
  base : list.base.state = .executing ∨ list.base.state = .canceled

/-- What a call does to a list that is executed. -/
structure Stays (list next : ListBuildAction) : Prop where
  keeps : list.Keeps next
  control : next.control = list.control
  underway : list.Underway → next.Underway

theorem stays_callBase (list : ListBuildAction) (answer : Answer) :
    list.Stays (list.callBase answer.step) := by
  rw [callBase_answer]
  cases hstate : list.base.state with
  | executing => exact ⟨keeps_of_actions rfl rfl, rfl, fun h => ⟨h.handlers, .inr rfl⟩⟩
  | executed =>
    refine ⟨keeps_of_actions rfl rfl, rfl, fun h => ?_⟩
    have hbase := h.base
    rw [hstate] at hbase
    rcases hbase with hbase | hbase <;> cases hbase
  | none | bound | resolved | rejected | canceled => exact ⟨.refl list, rfl, id⟩

theorem Stays.trans (h : list.Stays next) (hnext : next.Stays last) : list.Stays last :=
  ⟨h.keeps.trans hnext.keeps, hnext.control.trans h.control, fun hu => hnext.underway (h.underway hu)⟩

theorem stays_cancelActions (list : ListBuildAction) : list.Stays list.cancelActions :=
  ⟨keeps_cancelActions list, rfl, fun h => ⟨h.handlers, h.base⟩⟩

theorem stays_handler (list : ListBuildAction) (called : Option Settle) :
    list.Stays (list.handler called) := by
  have hanswer : ∀ answer : Answer, list.Stays (list.handler (some answer.settle)) := by
    intro answer
    rw [handler_answer]
    split
    · exact (stays_cancelActions list).trans (stays_callBase _ answer)
    · split
      · exact stays_callBase list answer
      · exact ⟨.refl list, rfl, id⟩
  cases called with
  | none => exact ⟨.refl list, rfl, id⟩
  | some settle =>
    cases settle with
    | resolve => exact hanswer .resolve
    | reject => exact hanswer .reject
    | cancel => exact ⟨.refl list, rfl, id⟩

/-- What holds in every run. -/
structure Tracked (list : ListBuildAction) : Prop where
  sound : list.Sound
  underway : list.busy → list.Underway

theorem tracked_create (kind : ListKind) (onCanceled : List Bool) :
    Tracked (create kind onCanceled) where
  sound := by
    intro item hmem
    obtain ⟨called, -, rfl⟩ := List.mem_map.mp hmem
    exact ⟨fun hne => absurd rfl hne, nofun, nofun, nofun, nofun⟩
  underway := fun _ => ⟨rfl, .inl rfl⟩

/-- An answer before the end of the execution, or after it. -/
theorem Tracked.settleItem (h : Tracked list) (hget : list.actions[i]? = some item)
    (answer : Answer) : list.Stays (list.settleItem i item answer) := by
  have hsound := h.sound item (List.mem_of_getElem? hget)
  rw [settleItem_eq]
  refine Stays.trans ?_ (stays_handler _ _)
  exact ⟨keeps_set hget (hsound.follows_settled answer) list.control, rfl,
    fun hu => ⟨hu.handlers, hu.base⟩⟩

/-- How far a step of the execution comes. -/
inductive Advances (list next : ListBuildAction) : Prop where
  | busy (hkeeps : list.Keeps next) (hbusy : next.busy) (hunderway : next.Underway)
  | failed (hkeeps : list.Keeps next) (hcontrol : next.control = .failed)
  | done (hkeeps : list.Keeps next) (hcontrol : next.control = .done)
      (hhandlers : next.handlers = [] ∨ next.handlers = [.cancel])

theorem Tracked.advance (h : Tracked list) (hnext : list.advance = some next) :
    list.Advances next := by
  unfold ListBuildAction.advance at hnext
  have hbusy : list.busy := by
    constructor <;> intro hcontrol <;> rw [hcontrol] at hnext <;> cases hnext
  have hunderway := h.underway hbusy
  cases hcontrol : list.control with
  | start =>
    rw [hcontrol] at hnext
    cases hnext
    split
    · have hstays := stays_callBase list .resolve
      have hu := hstays.underway hunderway
      exact .busy (hstays.keeps.trans (keeps_of_actions rfl rfl)) ⟨nofun, nofun⟩
        ⟨hu.handlers, hu.base⟩
    · exact .busy (keeps_of_actions rfl rfl) ⟨nofun, nofun⟩ ⟨hunderway.handlers, hunderway.base⟩
  | item i =>
    rw [hcontrol] at hnext
    cases hnext
    cases hget : list.actions[i]? with
    | none =>
      exact .busy (keeps_of_actions rfl rfl) ⟨nofun, nofun⟩ ⟨hunderway.handlers, hunderway.base⟩
    | some item =>
      dsimp only
      unfold beginItem
      split
      case isTrue hstate =>
        have hfollows : item.Follows
            { item with
              action := (item.action.perform
                (.beginExecute { resolve := true, reject := true } .bound)).next } := by
          refine ListItem.follows_of_unanswered (.inl hstate) (.inl ?_)
          rw [BuildAction.perform, if_pos hstate]
          rfl
        exact .busy (keeps_set hget hfollows _) ⟨nofun, nofun⟩
          ⟨hunderway.handlers, hunderway.base⟩
      case isFalse => exact .failed (keeps_of_actions rfl rfl) rfl
  | execute i =>
    rw [hcontrol] at hnext
    obtain ⟨item, hget, rfl⟩ := map_eq_some_iff.mp hnext
    unfold endItem
    have hstays := stays_handler
      { list with
        actions := list.actions.set i { item with action := (item.action.callAlone .endExecute).1 }
        control := .item (i + 1) }
      (item.action.callAlone .endExecute).2
    refine .busy ((keeps_set hget item.follows_endExecute _).trans hstays.keeps) ?_
      (hstays.underway ⟨hunderway.handlers, hunderway.base⟩)
    unfold busy
    rw [hstays.control]
    exact ⟨nofun, nofun⟩
  | finish =>
    rw [hcontrol] at hnext
    cases hnext
    rw [callBase_endExecute list hunderway.base]
    split
    · exact .done (keeps_of_actions rfl rfl) rfl (.inl hunderway.handlers)
    refine .done ?_ rfl (.inr ?_)
    · exact (keeps_cancelActions list).trans (keeps_of_actions rfl rfl)
    · show list.handlers ++ [.cancel] = [.cancel]
      rw [hunderway.handlers]
      rfl
  | done | failed =>
    rw [hcontrol] at hnext
    cases hnext

theorem Tracked.handle (h : Tracked list) (event : ListEvent)
    (hnext : ListBuildAction.handle list event = some next) : Tracked next := by
  cases event with
  | advance =>
    cases h.advance hnext with
    | busy hkeeps _ hunderway => exact ⟨hkeeps.sound h.sound, fun _ => hunderway⟩
    | failed hkeeps hcontrol => exact ⟨hkeeps.sound h.sound, fun hbusy => absurd hcontrol hbusy.2⟩
    | done hkeeps hcontrol => exact ⟨hkeeps.sound h.sound, fun hbusy => absurd hcontrol hbusy.1⟩
  | answer _ answer =>
    obtain ⟨item, hget, rfl⟩ := map_eq_some_iff.mp hnext
    have hstays := h.settleItem hget answer
    refine ⟨hstays.keeps.sound h.sound, fun hbusy => hstays.underway (h.underway ?_)⟩
    unfold busy at hbusy ⊢
    rwa [← hstays.control]

/-! ## Answers that come too early -/

/-- Before the end of the execution the answers are such that the list has to be settled. -/
structure Doomed (list : ListBuildAction) : Prop where
  busy : list.busy
  answered : list.Decided ∨ list.Unanimous

theorem Keeps.answered (h : list.Keeps next) (hanswered : list.Decided ∨ list.Unanimous) :
    next.Decided ∨ next.Unanimous :=
  hanswered.imp h.decided h.unanimous

theorem settle_ne_cancel (answer : Answer) : answer.settle ≠ .cancel := by
  cases answer <;> nofun

/-- At the end of the execution it is not settled that way. -/
theorem not_combines_of_done (hcontrol : list.control = .done)
    (hanswered : list.Decided ∨ list.Unanimous)
    (hhandlers : list.handlers = [] ∨ list.handlers = [.cancel]) : ¬ list.Combines := by
  intro h
  have hne : ∀ answer : Answer, list.handlers ≠ [answer.settle] := by
    intro answer heq
    rcases hhandlers with hnil | hcancel
    · rw [hnil] at heq
      cases heq
    · rw [hcancel] at heq
      exact settle_ne_cancel answer (cons.inj heq).1.symm
  rcases hanswered with hdecided | hunanimous
  · exact hne _ ((h.decided hcontrol).mpr hdecided)
  · exact hne _ ((h.unanimous hcontrol).mpr hunanimous)

variable {events : List ListEvent}

theorem Doomed.run (h : Doomed list) (htracked : Tracked list)
    (hrun : exec ListBuildAction.handle list events = some last) (hreturned : last.returned = true) :
    ¬ Throughout ListBuildAction.handle Combines list events := by
  intro hgood
  induction events generalizing list with
  | nil =>
    cases hrun
    unfold returned at hreturned
    rw [Bool.or_eq_true, decide_eq_true_iff, decide_eq_true_iff] at hreturned
    exact hreturned.elim h.busy.1 h.busy.2
  | cons event events ih =>
    obtain ⟨next, hnext, hrunRest⟩ := exec_cons hrun
    have hrest : Throughout ListBuildAction.handle Combines next events := by
      intro front back u heq hfront
      refine hgood (event :: front) back u (congrArg (event :: ·) heq) ?_
      show (ListBuildAction.handle list event).bind _ = _
      rw [hnext]
      exact hfront
    have hnow : next.Combines := hrest [] events next rfl rfl
    have htracked' := htracked.handle event hnext
    cases event with
    | advance =>
      cases htracked.advance hnext with
      | busy hkeeps hbusy => exact ih ⟨hbusy, hkeeps.answered h.answered⟩ htracked' hrunRest hrest
      | failed _ hcontrol => exact hnow.started hcontrol
      | done hkeeps hcontrol hhandlers =>
        exact not_combines_of_done hcontrol (hkeeps.answered h.answered) hhandlers hnow
    | answer _ answer =>
      obtain ⟨item, hget, rfl⟩ := map_eq_some_iff.mp hnext
      have hstays := htracked.settleItem hget answer
      refine ih ⟨?_, hstays.keeps.answered h.answered⟩ htracked' hrunRest hrest
      unfold ListBuildAction.busy
      rw [hstays.control]
      exact h.busy

/-! ## Answers in order -/

/-- The answers do not settle the list yet. -/
structure Pending (list : ListBuildAction) : Prop where
  handlers : list.handlers = []
  sound : list.Sound
  canceled : ∀ item ∈ list.actions, item.action.state = .canceled → item.inside = true
  undecided : ¬ list.Decided
  divided : ¬ list.Unanimous

theorem eq_other_of_ne {decisive : Answer} (h : answer ≠ decisive) : answer = decisive.other := by
  cases answer <;> cases decisive <;> first | rfl | exact absurd rfl h

theorem other_ne (decisive : Answer) : decisive.other ≠ decisive := by
  cases decisive <;> nofun

theorem settle_injective {other : Answer} (h : answer.settle = other.settle) : answer = other := by
  cases answer <;> cases other <;> first | rfl | cases h

variable {list : ListBuildAction} {onCanceled : List Bool}

theorem answer_eq_other (hundecided : ¬ list.Decided)
    (hmem : item ∈ list.actions) (hsome : item.answer ≠ none) :
    item.answer = some list.kind.decisive.other := by
  cases hanswer : item.answer with
  | none => exact absurd hanswer hsome
  | some answer =>
    have hne : answer ≠ list.kind.decisive := fun heq => hundecided ⟨item, hmem, heq ▸ hanswer⟩
    rw [eq_other_of_ne hne]

/-- An action in the state that the handlers look for gave the other answer, to an `All` list. -/
theorem answer_of_agreed (hundecided : ¬ list.Decided)
    (hsound : item.Sound) (hmem : item ∈ list.actions)
    (hstate : item.action.state = agreed list.kind) :
    list.kind = .all ∧ item.answer = some list.kind.decisive.other := by
  cases hkind : list.kind with
  | all =>
    rw [hkind] at hstate
    refine ⟨rfl, ?_⟩
    rw [← hkind]
    exact answer_eq_other hundecided hmem (hsound.resolved hstate).1
  | race =>
    rw [hkind] at hstate
    exact absurd hstate hsound.bound.2

theorem mem_set (hmem : after ∈ list.actions.set i item) : after ∈ list.actions ∨ after = item :=
  mem_or_eq_of_mem_set hmem

theorem Pending.takes (h : list.Pending) (hget : list.actions[i]? = some item)
    (hanswers : item.answers = true) {k : Nat} {rest : ListItem} (hne : k ≠ i)
    (hrest : list.actions[k]? = some rest) (hdivided : rest.answer ≠ some list.kind.decisive.other) :
    list.settleItem i item list.kind.decisive.other =
      { list with actions := list.actions.set i (item.settled list.kind.decisive.other) } ∧
    Pending { list with actions := list.actions.set i (item.settled list.kind.decisive.other) } := by
  have hitem := h.sound item (List.mem_of_getElem? hget)
  have hfollows := hitem.follows_settled list.kind.decisive.other
  have hkeeps := keeps_set hget hfollows list.control
  have hnew : (item.settled list.kind.decisive.other).answer = some list.kind.decisive.other :=
    ListItem.settled_answer hanswers
  have hsettled : Pending
      { list with actions := list.actions.set i (item.settled list.kind.decisive.other) } := by
    refine ⟨h.handlers, hkeeps.sound h.sound, fun after hmem hstate => ?_, ?_, ?_⟩
    · rcases mem_set hmem with hmem | rfl
      · exact h.canceled after hmem hstate
      rcases ListItem.answers_iff.mp hanswers with hbefore | hbefore
      · rw [ListItem.settled_of_executing hbefore]
      · rw [ListItem.settled_of_executed hbefore] at hstate
        cases hstate
    · rintro ⟨after, hmem, hanswer⟩
      rcases mem_set hmem with hmem | rfl
      · exact h.undecided ⟨after, hmem, hanswer⟩
      · rw [hnew] at hanswer
        exact other_ne _ (some.inj hanswer)
    intro hunanimous
    refine hdivided (hunanimous rest (List.mem_of_getElem? (i := k) ?_))
    show (list.actions.set i _)[k]? = _
    rw [List.getElem?_set_ne (Ne.symm hne), hrest]
  refine ⟨?_, hsettled⟩
  rw [settleItem_eq, BuildAction.callAlone_answer]
  rcases ListItem.answers_iff.mp hanswers with hstate | hstate
  · rw [hstate]
    rfl
  rw [hstate]
  rw [handler_answer, if_neg (other_ne _), if_neg ?_]
  intro hall
  have hmem : rest ∈ list.actions.set i (item.settled list.kind.decisive.other) := by
    refine List.mem_of_getElem? (i := k) ?_
    rw [List.getElem?_set_ne (Ne.symm hne), hrest]
  have hagreed := of_decide_eq_true (List.all_eq_true.mp hall rest hmem)
  exact hdivided (answer_of_agreed h.undecided
    (h.sound rest (List.mem_of_getElem? hrest)) (List.mem_of_getElem? hrest) hagreed).2

theorem settleItem_of_ignored (hget : list.actions[i]? = some item) (h : item.answers = false)
    (answer : Answer) : list.settleItem i item answer = list := by
  have hset : list.actions.set i item = list.actions := by
    obtain ⟨hlt, heq⟩ := List.getElem?_eq_some_iff.mp hget
    rw [← heq]
    exact set_getElem_self hlt
  rw [settleItem_eq, ListItem.callAlone_of_ignored h, ListItem.settled_of_ignored h, hset]
  rfl

/-- How many actions have begun. -/
def begun (list : ListBuildAction) : Nat :=
  match list.control with
  | .start => 0
  | .item i => i
  | .execute i => i + 1
  | _ => list.actions.length

/-- The list is executed. -/
structure Running (list : ListBuildAction) : Prop where
  busy : list.busy
  pending : list.Pending
  base : list.base.state = .executing
  bound : ∀ (k : Nat) item, list.actions[k]? = some item →
    (item.action.state = .bound ↔ list.begun ≤ k)
  current : ∀ (k : Nat) item, list.actions[k]? = some item → item.action.state = .executing →
    list.control = .execute k
  executing : ∀ (k : Nat) item, list.control = .execute k → list.actions[k]? = some item →
    item.action.state = .executing ∨ item.action.state = .canceled

/-- How far a list is whose actions answer in order. -/
inductive Orderly (list : ListBuildAction) : Prop where
  | running (h : list.Running)
  | waiting (hcontrol : list.control = .done) (hpending : list.Pending)
      (hbase : list.base.state = .executed)
      (hitems : ∀ item ∈ list.actions, item.action.state ≠ .bound ∧ item.action.state ≠ .executing)
  | decided (hcontrol : list.control = .done) (hsound : list.Sound) (hdecided : list.Decided)
      (hhandlers : list.handlers = [list.kind.decisive.settle])
      (hitems : ∀ item ∈ list.actions,
        item.action.state = .resolved ∨ item.action.state = .canceled)
  | unanimous (hcontrol : list.control = .done) (hunanimous : list.Unanimous)
      (hactions : list.actions ≠ []) (hhandlers : list.handlers = [list.kind.decisive.other.settle])
      (hitems : ∀ item ∈ list.actions, item.answers = false)

theorem Decided.not_unanimous (h : list.Decided) : ¬ list.Unanimous := by
  obtain ⟨item, hmem, hanswer⟩ := h
  exact fun hunanimous => other_ne _ (some.inj ((hunanimous item hmem).symm.trans hanswer))

theorem Orderly.combines (h : list.Orderly) : list.Combines := by
  cases h with
  | running h =>
    exact ⟨h.busy.2, fun hdone => absurd hdone h.busy.1, fun hdone => absurd hdone h.busy.1,
      fun hdone => absurd hdone h.busy.1, fun hdone => absurd hdone h.busy.1⟩
  | waiting hcontrol hpending =>
    refine ⟨by rw [hcontrol]; nofun, fun _ => ?_, fun _ => ?_, fun _ _ _ => hpending.handlers,
      fun _ hdecided => absurd hdecided hpending.undecided⟩
    · rw [hpending.handlers]
      exact ⟨nofun, fun hdecided => absurd hdecided hpending.undecided⟩
    · rw [hpending.handlers]
      exact ⟨nofun, fun hunanimous => absurd hunanimous hpending.divided⟩
  | decided hcontrol hsound hdecided hhandlers hitems =>
    refine ⟨by rw [hcontrol]; nofun, fun _ => iff_of_true hhandlers hdecided, fun _ => ?_,
      fun _ hnot => absurd hdecided hnot, fun _ _ item hmem => ?_⟩
    · refine iff_of_false (fun heq => ?_) hdecided.not_unanimous
      rw [hhandlers] at heq
      exact other_ne _ (settle_injective (cons.inj heq).1).symm
    · rcases hitems item hmem with hstate | hstate
      · exact .inr (isSome_iff_ne_none.mpr ((hsound item hmem).resolved hstate).1)
      · exact .inl hstate
  | unanimous hcontrol hunanimous _ hhandlers =>
    have hundecided : ¬ list.Decided := fun hdecided => hdecided.not_unanimous hunanimous
    refine ⟨by rw [hcontrol]; nofun, fun _ => ?_, fun _ => iff_of_true hhandlers hunanimous,
      fun _ _ hnot => absurd hunanimous hnot, fun _ hdecided => absurd hdecided hundecided⟩
    refine iff_of_false (fun heq => ?_) hundecided
    rw [hhandlers] at heq
    exact other_ne _ (settle_injective (cons.inj heq).1)

theorem orderly_create (kind : ListKind) (hne : onCanceled ≠ []) :
    Orderly (create kind onCanceled) := by
  have hitem : ∀ item ∈ (create kind onCanceled).actions,
      item.answer = none ∧ item.action.state = .bound := by
    intro item hmem
    obtain ⟨called, -, rfl⟩ := List.mem_map.mp hmem
    exact ⟨rfl, rfl⟩
  refine .running ⟨⟨nofun, nofun⟩, ⟨rfl, (tracked_create kind onCanceled).sound, ?_, ?_, ?_⟩, rfl,
    ?_, ?_, nofun⟩
  · intro item hmem hstate
    rw [(hitem item hmem).2] at hstate
    cases hstate
  · rintro ⟨item, hmem, hanswer⟩
    rw [(hitem item hmem).1] at hanswer
    cases hanswer
  · intro hunanimous
    obtain ⟨called, rest, rfl⟩ := exists_cons_of_ne_nil hne
    cases hunanimous _ (mem_cons_self)
  · exact fun k item hget =>
      iff_of_true (hitem item (List.mem_of_getElem? hget)).2 (Nat.zero_le k)
  · intro k item hget hstate
    rw [(hitem item (List.mem_of_getElem? hget)).2] at hstate
    cases hstate

/-- An action that keeps the answers from being unanimous. -/
theorem exists_divided {decisive : Answer} (h : ¬ ∀ k other, k ≠ i → list.actions[k]? = some other →
    other.answer = some decisive) :
    ∃ k rest, k ≠ i ∧ list.actions[k]? = some rest ∧ rest.answer ≠ some decisive := by
  by_contra hnone
  exact h fun k rest hne hrest => by_contra fun hdivided => hnone ⟨k, rest, hne, hrest, hdivided⟩

/-- An answer in order, while the list is executed. -/
theorem Running.answers (h : list.Running) (hget : list.actions[i]? = some item)
    (hok : list.InOrder (.answer i answer)) : (list.settleItem i item answer).Running := by
  cases hanswers : item.answers with
  | false =>
    rw [settleItem_of_ignored hget hanswers]
    exact h
  | true =>
    obtain ⟨hdecisive, hlast⟩ := hok item hget hanswers
    obtain rfl := eq_other_of_ne fun heq => h.busy.1 (hdecisive heq)
    obtain ⟨k, rest, hne, hrest, hdivided⟩ :=
      exists_divided fun hall => h.busy.1 (hlast rfl hall).2.1
    obtain ⟨heq, hpending⟩ := h.pending.takes hget hanswers hne hrest hdivided
    have hnotBound : item.action.state ≠ .bound := by
      rcases ListItem.answers_iff.mp hanswers with hstate | hstate <;> rw [hstate] <;> nofun
    have hstate : (item.settled list.kind.decisive.other).action.state = .resolved ∧
          item.action.state = .executed ∨
        (item.settled list.kind.decisive.other).action.state = .canceled := by
      rcases ListItem.answers_iff.mp hanswers with hstate | hstate
      · exact .inr (by rw [ListItem.settled_of_executing hstate])
      · exact .inl ⟨by rw [ListItem.settled_of_executed hstate], hstate⟩
    rw [heq]
    refine ⟨h.busy, hpending, h.base, fun m other hother => ?_, fun m other hother hexecuting => ?_,
      fun m other hcontrol hother => ?_⟩
    · -- an action that has answered was begun before
      have hlength : begun { list with
          actions := list.actions.set i (item.settled list.kind.decisive.other) } = list.begun := by
        unfold begun
        rw [length_set]
      rw [hlength]
      rcases set_cases hget hother with ⟨rfl, rfl⟩ | ⟨-, hother⟩
      · refine iff_of_false ?_ fun hle => hnotBound ((h.bound i item hget).mpr hle)
        rcases hstate with ⟨hstate, -⟩ | hstate <;> rw [hstate] <;> nofun
      · exact h.bound m other hother
    · rcases set_cases hget hother with ⟨-, rfl⟩ | ⟨-, hother⟩
      · rcases hstate with ⟨hstate, -⟩ | hstate <;> cases hstate.symm.trans hexecuting
      · exact h.current m other hother hexecuting
    rcases set_cases hget hother with ⟨rfl, rfl⟩ | ⟨-, hother⟩
    · rcases hstate with ⟨-, hexecuted⟩ | hcanceled
      · rcases h.executing i item hcontrol hget with hother | hother <;>
          cases hexecuted.symm.trans hother
      · exact .inr hcanceled
    · exact h.executing m other hcontrol hother

theorem Pending.set (h : list.Pending) (hget : list.actions[i]? = some item)
    (hfollows : item.Follows after) (hanswer : after.answer = item.answer)
    (hcanceled : after.action.state = .canceled → after.inside = true) (control : ListControl) :
    Pending { list with actions := list.actions.set i after, control } where
  handlers := h.handlers
  sound := (keeps_set hget hfollows control).sound h.sound
  canceled := fun other hmem hstate => by
    rcases mem_set hmem with hmem | rfl
    · exact h.canceled other hmem hstate
    · exact hcanceled hstate
  undecided := by
    rintro ⟨other, hmem, hdecisive⟩
    rcases mem_set hmem with hmem | rfl
    · exact h.undecided ⟨other, hmem, hdecisive⟩
    · exact h.undecided ⟨item, List.mem_of_getElem? hget, hanswer ▸ hdecisive⟩
  divided := by
    intro hunanimous
    refine h.divided fun other hmem => ?_
    obtain ⟨k, hother⟩ := List.mem_iff_getElem?.mp hmem
    by_cases heq : i = k
    · subst heq
      obtain rfl := some.inj (hget.symm.trans hother)
      exact hanswer ▸ hunanimous after (mem_set_at hget after)
    · refine hunanimous other (List.mem_of_getElem? (i := k) ?_)
      show (list.actions.set i after)[k]? = _
      rw [List.getElem?_set_ne heq, hother]

theorem Pending.control (h : list.Pending) (control : ListControl) :
    Pending { list with control } :=
  ⟨h.handlers, h.sound, h.canceled, h.undecided, h.divided⟩

theorem Running.begins (h : list.Running) (hcontrol : list.control = .item i)
    (hget : list.actions[i]? = some item) : (list.beginItem i item).Running := by
  have hbegun : list.begun = i := by rw [begun, hcontrol]
  have hstate := (h.bound i item hget).mpr (Nat.le_of_eq hbegun)
  have hbegin : ∃ action, list.beginItem i item =
      { list with actions := list.actions.set i { item with action }, control := .execute i } ∧
      action.state = .executing := by
    unfold beginItem
    rw [if_pos hstate]
    refine ⟨_, rfl, ?_⟩
    rw [BuildAction.perform, if_pos hstate]
    rfl
  obtain ⟨action, heq, hexecuting⟩ := hbegin
  rw [heq]
  have hcanceled : action.state = .canceled → item.inside = true := by
    intro hcanceled
    cases hexecuting.symm.trans hcanceled
  have hfollows : item.Follows { item with action } :=
    ListItem.follows_of_unanswered (.inl hstate) (.inl hexecuting)
  have hpending := h.pending.set hget hfollows rfl hcanceled (.execute i)
  refine ⟨⟨nofun, nofun⟩, hpending, h.base, fun k other hother => ?_,
    fun k other hother hexecuting => ?_, fun k other hexecute hother => ?_⟩
  · show other.action.state = .bound ↔ i + 1 ≤ k
    rcases set_cases hget hother with ⟨rfl, rfl⟩ | ⟨hne, hother⟩
    · rw [hexecuting]
      exact iff_of_false nofun (by omega)
    have hbound := h.bound k other hother
    rw [hbegun] at hbound
    rw [hbound]
    omega
  · rcases set_cases hget hother with ⟨rfl, -⟩ | ⟨-, hother⟩
    · rfl
    · cases hcontrol.symm.trans (h.current k other hother hexecuting)
  obtain rfl : i = k := ListControl.execute.inj hexecute
  rcases set_cases hget hother with ⟨-, rfl⟩ | ⟨hne, -⟩
  · exact .inl hexecuting
  · exact absurd rfl hne

theorem Running.ends (h : list.Running) (hcontrol : list.control = .execute i)
    (hget : list.actions[i]? = some item) : (list.endItem i item).Running := by
  have hbegun : list.begun = i + 1 := by rw [begun, hcontrol]
  have hmem := List.mem_of_getElem? hget
  have hstate := h.executing i item hcontrol hget
  -- the action is executed now, or it was canceled when it answered
  have hend : ∃ action, list.endItem i item =
      { list with
        actions := list.actions.set i { item with action }
        control := .item (i + 1) } ∧
      item.Follows { item with action } ∧
      (action.state = .executed ∨ action.state = .canceled ∧ item.inside = true) := by
    have hfollows := item.follows_endExecute
    unfold endItem
    rw [BuildAction.callAlone_endExecute] at hfollows ⊢
    rcases hstate with hstate | hstate
    · rw [hstate] at hfollows ⊢
      exact ⟨_, rfl, hfollows, .inl rfl⟩
    · rw [hstate] at hfollows ⊢
      exact ⟨_, rfl, hfollows, .inr ⟨hstate, h.pending.canceled item hmem hstate⟩⟩
  obtain ⟨action, heq, hfollows, hafter⟩ := hend
  have hnot : action.state ≠ .bound ∧ action.state ≠ .executing := by
    rcases hafter with hafter | ⟨hafter, -⟩ <;> rw [hafter] <;> exact ⟨nofun, nofun⟩
  rw [heq]
  refine ⟨⟨nofun, nofun⟩, h.pending.set hget hfollows rfl (fun hcanceled => ?_) _, h.base,
    fun k other hother => ?_, fun k other hother hexecuting => ?_, nofun⟩
  · rcases hafter with hafter | ⟨-, hinside⟩
    · cases hafter.symm.trans hcanceled
    · exact hinside
  · show other.action.state = .bound ↔ i + 1 ≤ k
    rcases set_cases hget hother with ⟨rfl, rfl⟩ | ⟨-, hother⟩
    · exact iff_of_false hnot.1 (by omega)
    · rw [h.bound k other hother, hbegun]
  rcases set_cases hget hother with ⟨-, rfl⟩ | ⟨hne, hother⟩
  · exact absurd hexecuting hnot.2
  have hcurrent := h.current k other hother hexecuting
  rw [hcontrol] at hcurrent
  exact absurd (ListControl.execute.inj hcurrent).symm hne

theorem Running.moves (h : list.Running) {control : ListControl}
    (hbusy : control ≠ .done ∧ control ≠ .failed) (hexecute : ∀ k, control ≠ .execute k)
    (hbefore : ∀ k, list.control ≠ .execute k)
    (hbegun : ∀ k < list.actions.length, list.begun ≤ k ↔ begun { list with control } ≤ k) :
    Running { list with control } where
  busy := hbusy
  pending := h.pending.control control
  base := h.base
  bound := fun k item hget => by
    have hlt := (List.getElem?_eq_some_iff.mp hget).1
    rw [h.bound k item hget, hbegun k hlt]
  current := fun k item hget hexecuting =>
    absurd (h.current k item hget hexecuting) (hbefore k)
  executing := fun k item hcontrol => absurd hcontrol (hexecute k)

/-- The execution of a list goes on, whose actions answer in order. -/
theorem Running.advance (h : list.Running) (hnext : list.advance = some next) : next.Orderly := by
  unfold ListBuildAction.advance at hnext
  cases hcontrol : list.control with
  | start =>
    rw [hcontrol] at hnext
    cases hnext
    have hne : list.actions ≠ [] := by
      intro hnil
      refine h.pending.divided fun item hmem => ?_
      rw [hnil] at hmem
      cases hmem
    rw [if_neg hne]
    refine .running (h.moves ⟨nofun, nofun⟩ nofun ?_ fun k _ => ?_)
    · rw [hcontrol]
      nofun
    · rw [begun, hcontrol, begun]
  | item i =>
    rw [hcontrol] at hnext
    cases hnext
    cases hget : list.actions[i]? with
    | none =>
      have hle := List.getElem?_eq_none_iff.mp hget
      refine .running (h.moves ⟨nofun, nofun⟩ nofun ?_ fun k hlt => ?_)
      · rw [hcontrol]
        nofun
      · rw [begun, hcontrol, begun]
        dsimp only
        omega
    | some => exact .running (h.begins hcontrol hget)
  | execute =>
    rw [hcontrol] at hnext
    obtain ⟨item, hget, rfl⟩ := map_eq_some_iff.mp hnext
    exact .running (h.ends hcontrol hget)
  | finish =>
    rw [hcontrol] at hnext
    cases hnext
    rw [callBase_endExecute list (.inl h.base), if_pos h.base]
    refine .waiting rfl ⟨h.pending.handlers, h.pending.sound, h.pending.canceled,
      h.pending.undecided, h.pending.divided⟩ rfl fun item hmem => ?_
    obtain ⟨k, hget⟩ := List.mem_iff_getElem?.mp hmem
    have hlt := (List.getElem?_eq_some_iff.mp hget).1
    refine ⟨fun hbound => ?_, fun hexecuting => ?_⟩
    · have hle := (h.bound k item hget).mp hbound
      rw [begun, hcontrol] at hle
      exact absurd hlt (Nat.not_lt.mpr hle)
    · cases hcontrol.symm.trans (h.current k item hget hexecuting)
  | done | failed =>
    rw [hcontrol] at hnext
    cases hnext

section

variable (hcontrol : list.control = .done) (h : list.Pending) (hbase : list.base.state = .executed)
include hcontrol h hbase

theorem decides (hget : list.actions[i]? = some item)
    (hstate : item.action.state = .executed) :
    (list.settleItem i item list.kind.decisive).Orderly := by
  have hsound := h.sound item (List.mem_of_getElem? hget)
  have hkeeps := (keeps_set hget (hsound.follows_settled list.kind.decisive) list.control).trans
    (keeps_cancelActions _)
  have heq : list.settleItem i item list.kind.decisive =
      { (cancelActions { list with actions := list.actions.set i (item.settled list.kind.decisive) })
        with
        base := { list.base with state := .resolved }
        handlers := [list.kind.decisive.settle] } := by
    rw [settleItem_eq, BuildAction.callAlone_answer, hstate]
    rw [handler_answer, if_pos rfl, callBase_answer]
    unfold cancelActions
    rw [hbase]
    rw [h.handlers]
    rfl
  rw [heq]
  have hmem : (item.settled list.kind.decisive).canceled ∈
      (list.actions.set i (item.settled list.kind.decisive)).map ListItem.canceled :=
    List.mem_map_of_mem (mem_set_at hget _)
  refine .decided hcontrol (hkeeps.sound h.sound) ⟨_, hmem, ?_⟩ rfl fun after hafter => ?_
  · rw [ListItem.settled_of_executed hstate]
    rfl
  obtain ⟨before, hbefore, rfl⟩ := List.mem_map.mp hafter
  show before.canceled.action.state = _ ∨ before.canceled.action.state = _
  rw [ListItem.canceled_state]
  have hkept := (keeps_set hget (hsound.follows_settled list.kind.decisive) list.control).sound
    h.sound before hbefore
  cases hother : before.action.state with
  | bound | executing | executed | canceled => exact .inr rfl
  | resolved => exact .inl rfl
  | none => exact absurd hother hkept.bound.1
  | rejected => exact absurd hother hkept.bound.2

/-- The last of the other answers, after the execution of an `All` list none of whose actions answered
while it was executing. -/
theorem agrees (hkind : list.kind = .all)
    (hget : list.actions[i]? = some item) (hstate : item.action.state = .executed)
    (hall : ∀ k other, k ≠ i → list.actions[k]? = some other →
      other.answer = some list.kind.decisive.other)
    (houtside : ∀ other ∈ list.actions, other.inside = false) :
    (list.settleItem i item list.kind.decisive.other).Orderly := by
  have hresolved : ∀ after ∈ list.actions.set i (item.settled list.kind.decisive.other),
      after.action.state = .resolved ∧ after.answer = some list.kind.decisive.other := by
    intro after hafter
    obtain ⟨k, hk⟩ := List.mem_iff_getElem?.mp hafter
    rcases set_cases hget hk with ⟨-, rfl⟩ | ⟨hne, hk⟩
    · rw [ListItem.settled_of_executed hstate]
      exact ⟨rfl, rfl⟩
    have hmem := List.mem_of_getElem? hk
    have hanswer := hall k after hne hk
    refine ⟨?_, hanswer⟩
    rcases (h.sound after hmem).answered (by rw [hanswer]; nofun) with hother | hother
    · exact hother
    · have hinside := h.canceled after hmem hother
      rw [houtside after hmem] at hinside
      cases hinside
  have heq : list.settleItem i item list.kind.decisive.other =
      { list with
        actions := list.actions.set i (item.settled list.kind.decisive.other)
        base := { list.base with state := .resolved }
        handlers := [list.kind.decisive.other.settle] } := by
    rw [settleItem_eq, BuildAction.callAlone_answer, hstate]
    rw [handler_answer, if_neg (other_ne _), if_pos ?_, callBase_answer]
    · dsimp only
      rw [hbase]
      rw [h.handlers]
      rfl
    rw [List.all_eq_true]
    intro after hafter
    rw [decide_eq_true_iff, hkind]
    exact (hresolved after hafter).1
  rw [heq]
  refine .unanimous hcontrol (fun after hafter => (hresolved after hafter).2) ?_ rfl
    fun after hafter => ?_
  · intro hnil
    have hlength := congrArg List.length hnil
    have hlt := (List.getElem?_eq_some_iff.mp hget).1
    rw [length_set, length_nil] at hlength
    omega
  · unfold ListItem.answers
    rw [(hresolved after hafter).1]
    rfl

end

theorem Orderly.answers (h : list.Orderly) (hget : list.actions[i]? = some item)
    (hok : list.InOrder (.answer i answer)) : (list.settleItem i item answer).Orderly := by
  cases hanswers : item.answers with
  | false =>
    rw [settleItem_of_ignored hget hanswers]
    exact h
  | true =>
    have hmem := List.mem_of_getElem? hget
    cases h with
    | running h => exact .running (h.answers hget hok)
    | waiting hcontrol hpending hbase hitems =>
      have hstate : item.action.state = .executed :=
        (ListItem.answers_iff.mp hanswers).resolve_left (hitems item hmem).2
      by_cases hdecisive : answer = list.kind.decisive
      · rw [hdecisive]
        exact decides hcontrol hpending hbase hget hstate
      obtain rfl := eq_other_of_ne hdecisive
      by_cases hall : ∀ k other, k ≠ i → list.actions[k]? = some other →
          other.answer = some list.kind.decisive.other
      · obtain ⟨hkind, -, houtside⟩ := (hok item hget hanswers).2 rfl hall
        exact agrees hcontrol hpending hbase hkind hget hstate hall houtside
      obtain ⟨k, rest, hne, hrest, hdivided⟩ := exists_divided hall
      obtain ⟨heq, hnext⟩ := hpending.takes hget hanswers hne hrest hdivided
      rw [heq]
      refine .waiting hcontrol hnext hbase fun after hafter => ?_
      rcases mem_set hafter with hafter | rfl
      · exact hitems after hafter
      · rw [ListItem.settled_of_executed hstate]
        exact ⟨nofun, nofun⟩
    | decided _ _ _ _ hitems =>
      rcases ListItem.answers_iff.mp hanswers with hstate | hstate <;>
        rcases hitems item hmem with hother | hother <;> cases hstate.symm.trans hother
    | unanimous _ _ _ _ hitems =>
      rw [hitems item hmem] at hanswers
      cases hanswers

theorem Orderly.handle (h : list.Orderly) (event : ListEvent) (hok : list.InOrder event)
    (hnext : ListBuildAction.handle list event = some next) : next.Orderly := by
  cases event with
  | advance =>
    have hdone : list.control = .done → next.Orderly := by
      intro hcontrol
      replace hnext : list.advance = some next := hnext
      rw [ListBuildAction.advance, hcontrol] at hnext
      cases hnext
    cases h with
    | running h => exact h.advance hnext
    | waiting hcontrol | decided hcontrol | unanimous hcontrol => exact hdone hcontrol
  | answer =>
    obtain ⟨item, hget, rfl⟩ := map_eq_some_iff.mp hnext
    exact h.answers hget hok

/-! ## Answers out of order -/

theorem decided_set (hget : list.actions[i]? = some item) (hanswers : item.answers = true) :
    Decided { list with actions := list.actions.set i (item.settled list.kind.decisive) } :=
  ⟨_, mem_set_at hget _, ListItem.settled_answer hanswers⟩

theorem unanimous_set (hget : list.actions[i]? = some item) (hanswers : item.answers = true)
    (hall : ∀ k other, k ≠ i → list.actions[k]? = some other →
      other.answer = some list.kind.decisive.other) :
    Unanimous { list with actions := list.actions.set i (item.settled list.kind.decisive.other) } := by
  intro after hafter
  obtain ⟨k, hk⟩ := List.mem_iff_getElem?.mp hafter
  rcases set_cases hget hk with ⟨-, rfl⟩ | ⟨hne, hk⟩
  · exact ListItem.settled_answer hanswers
  · exact hall k after hne hk

/-- After the execution an answer out of order leaves a list that is not settled. -/
theorem not_combines_of_late (htracked : Tracked list) (h : list.Combines)
    (hcontrol : list.control = .done) (hget : list.actions[i]? = some item)
    (hanswers : item.answers = true)
    (hall : ∀ k other, k ≠ i → list.actions[k]? = some other →
      other.answer = some list.kind.decisive.other)
    (hnot : ¬ (list.kind = .all ∧ ∀ other ∈ list.actions, other.inside = false)) :
    ¬ (list.settleItem i item list.kind.decisive.other).Combines := by
  have hmem := List.mem_of_getElem? hget
  have hsound := htracked.sound item hmem
  have hnone := hsound.unanswered hanswers
  have hundecided : ¬ list.Decided := by
    intro hdecided
    rcases h.canceled hcontrol hdecided item hmem with hstate | hsome
    · rcases ListItem.answers_iff.mp hanswers with hother | hother <;> cases hother.symm.trans hstate
    · rw [hnone] at hsome
      cases hsome
  have hdivided : ¬ list.Unanimous := by
    intro hunanimous
    cases hnone.symm.trans (hunanimous item hmem)
  have hhandlers := h.pending hcontrol hundecided hdivided
  have heq : list.settleItem i item list.kind.decisive.other =
      { list with actions := list.actions.set i (item.settled list.kind.decisive.other) } := by
    rw [settleItem_eq, BuildAction.callAlone_answer]
    rcases ListItem.answers_iff.mp hanswers with hstate | hstate
    · rw [hstate]
      rfl
    rw [hstate]
    rw [handler_answer, if_neg (other_ne _), if_neg ?_]
    -- no action of a race is rejected, and one that answered in its execution is canceled
    intro hagreed
    replace hagreed : ∀ after ∈ list.actions.set i (item.settled list.kind.decisive.other),
        after.action.state = agreed list.kind :=
      fun after hafter => of_decide_eq_true (List.all_eq_true.mp hagreed after hafter)
    have hself := hagreed _ (mem_set_at hget _)
    rw [ListItem.settled_of_executed hstate] at hself
    refine hnot ⟨?_, fun other hother => ?_⟩
    · cases hkind : list.kind with
      | all => rfl
      | race =>
        rw [hkind] at hself
        cases hself
    obtain ⟨k, hk⟩ := List.mem_iff_getElem?.mp hother
    by_cases heq : i = k
    · subst heq
      obtain rfl := some.inj (hget.symm.trans hk)
      cases hinside : item.inside with
      | false => rfl
      | true => exact absurd hnone (hsound.inside hinside).1
    have hmemSet : other ∈ list.actions.set i (item.settled list.kind.decisive.other) :=
      List.mem_of_getElem? (i := k) (by rw [List.getElem?_set_ne heq, hk])
    have hstate := hagreed other hmemSet
    rw [← hself] at hstate
    exact ((htracked.sound other hother).resolved hstate).2
  rw [heq]
  intro hgood
  have hsettled := (hgood.unanimous hcontrol).mpr (unanimous_set hget hanswers hall)
  rw [hhandlers] at hsettled
  cases hsettled

theorem tracked_run {kind : ListKind}
    (hrun : exec ListBuildAction.handle (create kind onCanceled) events = some list) :
    Tracked list :=
  exec_preserves (fun _ event _ h hnext => h.handle event hnext) (tracked_create kind onCanceled) hrun

/-- The states of the actions agree with what they did in every state of every run. -/
theorem list_tracked (kind : ListKind) (onCanceled : List Bool) (events : List ListEvent) :
    Throughout ListBuildAction.handle Tracked (create kind onCanceled) events :=
  fun _ _ _ _ hfront => tracked_run hfront

theorem throughout_rest {more : List ListEvent} {start : ListBuildAction}
    (h : Throughout ListBuildAction.handle Combines start (events ++ more))
    (hrun : exec ListBuildAction.handle start events = some list) :
    Throughout ListBuildAction.handle Combines list more := by
  intro front back u heq hfront
  refine h (events ++ front) back u (by rw [heq, append_assoc]) ?_
  rw [exec_append, hrun]
  exact hfront

/-- A list, whose execution has come to its end, combined the answers of its actions all the time if
and only if it has actions and the answers came in order. -/
theorem combines_iff (kind : ListKind) (onCanceled : List Bool) (events : List ListEvent)
    (last : ListBuildAction)
    (hrun : exec ListBuildAction.handle (create kind onCanceled) events = some last)
    (hreturned : last.returned = true) :
    Throughout ListBuildAction.handle Combines (create kind onCanceled) events ↔
      onCanceled ≠ [] ∧
        StepsMeet ListBuildAction.handle InOrder (create kind onCanceled) events := by
  constructor
  · intro hgood
    constructor
    · -- all actions of an empty list have answered
      rintro rfl
      have hdoomed : Doomed (create kind []) := ⟨⟨nofun, nofun⟩, .inr nofun⟩
      exact hdoomed.run (tracked_create kind []) hrun hreturned hgood
    intro front event back list heq hfront
    have htracked := tracked_run hfront
    have hnow := hgood front (event :: back) list heq hfront
    have hback : exec ListBuildAction.handle list (event :: back) = some last := by
      rw [heq, exec_append, hfront] at hrun
      exact hrun
    obtain ⟨next, hnext, hrest⟩ := exec_cons hback
    have hgood' : Throughout ListBuildAction.handle Combines (create kind onCanceled)
        ((front ++ [event]) ++ back) := by
      rw [append_assoc]
      exact heq ▸ hgood
    have hafter := throughout_rest hgood' (by rw [exec_concat, hfront]; exact hnext)
    cases event with
    | advance => trivial
    | answer i answer =>
      intro item hget hanswers
      have hnextItem : list.settleItem i item answer = next := by
        obtain ⟨other, hother, heq⟩ := map_eq_some_iff.mp hnext
        obtain rfl := some.inj (hget.symm.trans hother)
        exact heq
      subst hnextItem
      have hstays := htracked.settleItem hget answer
      -- a list that is executed may not be settled yet
      have hearly : (list.settleItem i item answer).Decided ∨
          (list.settleItem i item answer).Unanimous → list.control = .done := by
        intro hanswered
        by_contra hne
        have hdoomed : Doomed (list.settleItem i item answer) := by
          refine ⟨?_, hanswered⟩
          unfold busy
          rw [hstays.control]
          exact ⟨hne, hnow.started⟩
        exact hdoomed.run (htracked.handle (.answer i answer) hnext) hrest hreturned hafter
      refine ⟨?_, ?_⟩
      · rintro rfl
        exact hearly (.inl ((stays_handler _ _).keeps.decided (decided_set hget hanswers)))
      rintro rfl hall
      have hdone := hearly
        (.inr ((stays_handler _ _).keeps.unanimous (unanimous_set hget hanswers hall)))
      by_contra hnot
      refine not_combines_of_late htracked hnow hdone hget hanswers hall ?_
        (hafter [] back _ rfl rfl)
      exact fun ⟨hkind, houtside⟩ => hnot ⟨hkind, hdone, houtside⟩
  rintro ⟨hne, hok⟩
  have hstep : ∀ list event next, Orderly list → InOrder list event →
      ListBuildAction.handle list event = some next → Orderly next :=
    fun _ event _ h hok hnext => h.handle event hok hnext
  intro front back list heq hfront
  exact ((heq ▸ hok).front.preserves hstep (orderly_create kind hne) hfront).combines

/-- Two actions that resolve one after the other, after the execution. -/
theorem combines_iff_of_two :
    Throughout ListBuildAction.handle Combines (create .all [true, true])
        (List.replicate 7 .advance ++ [.answer 1 .resolve, .answer 0 .resolve]) ↔
      [true, true] ≠ [] ∧
        StepsMeet ListBuildAction.handle InOrder (create .all [true, true])
          (List.replicate 7 .advance ++ [.answer 1 .resolve, .answer 0 .resolve]) :=
  combines_iff .all [true, true] _ _ rfl rfl

/-- The first of two actions rejects before the second is executed, which is canceled: the assertion
fails. And a race whose actions all reject does not reject. -/
theorem not_combines_answers :
    (∃ list, exec ListBuildAction.handle (create .all [true, true])
        (List.replicate 3 .advance ++ [.answer 0 .reject, .advance]) = some list ∧
      list.control = .failed) ∧
    ∃ list, exec ListBuildAction.handle (create .race [true])
        (List.replicate 5 .advance ++ [.answer 0 .reject]) = some list ∧
      list.control = .done ∧ list.Unanimous ∧ list.handlers = [] ∧ ¬ list.Combines := by
  refine ⟨⟨_, rfl, rfl⟩, _, rfl, rfl, ?_, rfl, fun h => ?_⟩
  · intro item hmem
    obtain rfl := mem_singleton.mp hmem
    rfl
  have hsettled := (h.unanimous rfl).mpr fun item hmem => by
    obtain rfl := mem_singleton.mp hmem
    rfl
  cases hsettled

end ListBuildAction

end Bdt
