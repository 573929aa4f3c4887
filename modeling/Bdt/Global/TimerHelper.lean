import Bdt.Base.Calls
import Bdt.Base.Transition
import Mathlib.Data.List.Nodup

/-!
# Timers that are started and stopped in several threads

A model of `TimerHelper.imp.inl`. `Bdt_TimerHelperStart` has two sections under the lock, and between
them it creates a timer; `Bdt_TimerHelperStop` has one, and behind it destroys a timer. The sections
and what is between them are steps, so that the functions may run in several threads in any way.

`sound_throughout` says when every timer is destroyed once or recorded. It turns on
`activeTimeSeq`, which has 31 bits.
-/

namespace Bdt

open Base List

/-- `BDT_SYSTEM_TIMER`, with how often the helper had been stopped when its start began. -/
structure Timer where
  id : Nat
  began : Nat
  deriving DecidableEq, Repr

/-- What the functions still have to do. -/
inductive TimerAction where
  /-- The section of `Bdt_TimerHelperStop`. -/
  | stop
  /-- The first section of `Bdt_TimerHelperStart`. -/
  | start
  /-- `BdtCreateTimeout`, with `curActiveSeq`. -/
  | create (curActiveSeq began : Nat)
  /-- The second section of `Bdt_TimerHelperStart`; the timer may be `NULL`. -/
  | record (curActiveSeq began : Nat) (newTimer : Option Timer)
  /-- `BdtDestroyTimeout`. -/
  | destroy (timer : Timer)
  deriving DecidableEq, Repr

/-- `Bdt_TimerHelper`, the functions in flight, and what has become of the timers. -/
structure TimerHelper where
  isStartPending : Bool := false
  activeTimeSeq : Nat := 1
  timerInstance : Option Timer := none
  inFlight : List (List TimerAction) := []
  /-- The number of sections of `Bdt_TimerHelperStop`. -/
  stops : Nat := 0
  created : List Timer := []
  destroyed : List Timer := []
  deriving DecidableEq, Repr

namespace TimerHelper

/-- The values of a field of 31 bits. -/
def TIME_SEQS : Nat := 2147483648

/-- The destruction of a timer, unless it is `NULL`. -/
def destroyOld (timer : Option Timer) : List TimerAction :=
  (timer.map TimerAction.destroy).toList

/-- The first section of `Bdt_TimerHelperStart`. A sequence number of zero ends the function, which
takes it for a timer that is there. -/
def startSection (helper : TimerHelper) : TimerHelper × List TimerAction :=
  if helper.timerInstance = none ∧ helper.isStartPending = false then
    ({ helper with isStartPending := true },
      if helper.activeTimeSeq = 0 then [] else [.create helper.activeTimeSeq helper.stops])
  else (helper, [])

/-- `BdtCreateTimeout`, which may fail. -/
def createTimeout (helper : TimerHelper) (curActiveSeq began : Nat) (succeeds : Bool) :
    TimerHelper × List TimerAction :=
  if succeeds then
    let newTimer : Timer := { id := helper.created.length, began }
    ({ helper with created := helper.created ++ [newTimer] },
      [.record curActiveSeq began (some newTimer)])
  else (helper, [.record curActiveSeq began none])

/-- The second section of `Bdt_TimerHelperStart`. -/
def recordSection (helper : TimerHelper) (curActiveSeq : Nat) (newTimer : Option Timer) :
    TimerHelper × List TimerAction :=
  if helper.activeTimeSeq = curActiveSeq then
    ({ helper with timerInstance := newTimer, isStartPending := false }, [])
  else (helper, destroyOld newTimer)

/-- The section of `Bdt_TimerHelperStop`. -/
def stopSection (helper : TimerHelper) : TimerHelper × List TimerAction :=
  ({ helper with
      activeTimeSeq := (helper.activeTimeSeq + 1) % TIME_SEQS
      timerInstance := none
      isStartPending := false
      stops := helper.stops + 1 },
    destroyOld helper.timerInstance)

/-- An action, and what it puts before the rest of its function. -/
def perform (helper : TimerHelper) (succeeds : Bool) : TimerAction → TimerHelper × List TimerAction
  | .stop => helper.stopSection
  | .start => helper.startSection
  | .create curActiveSeq began => helper.createTimeout curActiveSeq began succeeds
  | .record curActiveSeq _ newTimer => helper.recordSection curActiveSeq newTimer
  | .destroy timer => ({ helper with destroyed := helper.destroyed ++ [timer] }, [])

end TimerHelper

/-- What can happen: a thread calls a function, or one of the functions in flight does its next
action. -/
inductive TimerEvent where
  /-- `Bdt_TimerHelperStart`. -/
  | start
  /-- `Bdt_TimerHelperStop`. -/
  | stop
  /-- `Bdt_TimerHelperRestart`. -/
  | restart
  /-- `Bdt_TimerHelperUninit`. -/
  | uninit
  | step (i : Nat) (succeeds : Bool)
  deriving DecidableEq, Repr

namespace TimerHelper

/-- A function begins. -/
def begin (helper : TimerHelper) (actions : List TimerAction) : TimerHelper :=
  { helper with inFlight := helper.inFlight ++ [actions] }

/-- The handler of an event; `none` when there is no such action. -/
def handle (helper : TimerHelper) : TimerEvent → Option TimerHelper
  | .start => some (helper.begin [.start])
  | .stop | .uninit => some (helper.begin [.stop])
  | .restart => some (helper.begin [.stop, .start])
  | .step i succeeds =>
    match helper.inFlight[i]? with
    | some (action :: rest) =>
      let (next, more) := helper.perform succeeds action
      some { next with inFlight := advanceCall helper.inFlight i more rest }
    | _ => none

/-! ## The property -/

/-- A function in flight still has to record or to destroy the timer. -/
def holds (timer : Timer) : TimerAction → Int
  | .record _ _ newTimer => if newTimer = some timer then 1 else 0
  | .destroy other => if other = timer then 1 else 0
  | _ => 0

/-- The timer is recorded. -/
def recorded (helper : TimerHelper) (timer : Timer) : Int :=
  if helper.timerInstance = some timer then 1 else 0

/-- What is true of the timers: each that was created is recorded, was destroyed once, or a function
in flight still has to do one or the other; and behind a stop no timer is recorded whose start began
before it. -/
structure Sound (helper : TimerHelper) : Prop where
  once : ∀ timer ∈ helper.created,
    helper.recorded timer + helper.destroyed.count timer + weight (holds timer) helper.inFlight = 1
  fresh : ∀ timer, helper.timerInstance = some timer → timer.began = helper.stops
  /-- When the functions have returned, every timer was destroyed once or is the one recorded. -/
  finished : (∀ actions ∈ helper.inFlight, actions = []) → ∀ timer ∈ helper.created,
    helper.destroyed.count timer = if helper.timerInstance = some timer then 0 else 1

/-- The second section of a start does not come a multiple of 2^31 stops behind the first one. -/
def Timely (helper : TimerHelper) : TimerEvent → Prop
  | .step i _ => ∀ curActiveSeq began newTimer rest,
      helper.inFlight[i]? = some (.record curActiveSeq began newTimer :: rest) →
      (helper.stops - began) % TIME_SEQS = 0 → helper.stops = began
  | _ => True

/-! ## The invariant -/

/-- A start in flight that began after the last of `stops` stops. -/
def starting (stops : Nat) : TimerAction → Int
  | .create _ began => if began = stops then 1 else 0
  | .record _ began _ => if began = stops then 1 else 0
  | _ => 0

/-- The sequence number of a start in flight is the one that it found. -/
def WellTimed (stops : Nat) : TimerAction → Prop
  | .create curActiveSeq began => curActiveSeq = (1 + began) % TIME_SEQS ∧ began ≤ stops
  | .record curActiveSeq began newTimer =>
    (curActiveSeq = (1 + began) % TIME_SEQS ∧ began ≤ stops) ∧
      ∀ timer, newTimer = some timer → timer.began = began
  | _ => True

/-- What the steps keep: one start at most is on its way to record a timer, and only as long as none
is recorded. -/
structure Inv (helper : TimerHelper) : Prop where
  seq : helper.activeTimeSeq = (1 + helper.stops) % TIME_SEQS
  wellTimed : ∀ action ∈ helper.inFlight.flatten, WellTimed helper.stops action
  single : weight (starting helper.stops) helper.inFlight +
    (if helper.timerInstance = none then 0 else 1) ≤ 1
  idle : helper.timerInstance = none → helper.isStartPending = false →
    weight (starting helper.stops) helper.inFlight = 0
  ids : ∀ timer ∈ helper.created, timer.id < helper.created.length
  nodup : helper.created.Nodup
  account : ∀ timer,
    helper.recorded timer + helper.destroyed.count timer + weight (holds timer) helper.inFlight =
      helper.created.count timer
  fresh : ∀ timer, helper.timerInstance = some timer → timer.began = helper.stops

theorem inv_init : Inv {} where
  seq := by decide
  wellTimed _ hmem := absurd hmem not_mem_nil
  single := by decide
  idle _ _ := rfl
  ids _ hmem := absurd hmem not_mem_nil
  nodup := nodup_nil
  account _ := rfl
  fresh _ h := nomatch h

variable {helper : TimerHelper} {i : Nat} {action : TimerAction} {rest : List TimerAction}

theorem starting_nonneg (stops : Nat) (action : TimerAction) : 0 ≤ starting stops action := by
  unfold starting
  split
  · split <;> omega
  · split <;> omega
  · omega

theorem sum_destroyOld (old : Option Timer) :
    (∀ timer, ((destroyOld old).map (holds timer)).sum = if old = some timer then 1 else 0) ∧
      (∀ stops, ((destroyOld old).map (starting stops)).sum = 0) ∧
      ∀ stops, ∀ action ∈ destroyOld old, WellTimed stops action := by
  cases old with
  | none => exact ⟨fun _ => rfl, fun _ => rfl, fun _ _ hmem => absurd hmem not_mem_nil⟩
  | some =>
    refine ⟨fun timer => ?_, fun _ => rfl, fun _ action hmem => ?_⟩
    · simp [destroyOld, holds]
    · rw [mem_singleton.mp hmem]
      trivial

variable {stops : Nat}

/-- A start that finds the number of a later stop is not well timed. -/
theorem WellTimed.mono {later : Nat} (hle : stops ≤ later) (h : WellTimed stops action) :
    WellTimed later action := by
  cases action with
  | create => exact ⟨h.1, Nat.le_trans h.2 hle⟩
  | record => exact ⟨⟨h.1.1, Nat.le_trans h.1.2 hle⟩, h.2⟩
  | stop | start | destroy => trivial

theorem WellTimed.not_starting (h : WellTimed stops action) : starting (stops + 1) action = 0 := by
  cases action with
  | create =>
    have hle := h.2
    exact if_neg (by omega)
  | record =>
    have hle := h.1.2
    exact if_neg (by omega)
  | stop | start | destroy => rfl

section

variable (h : helper.Inv)
include h

/-- What is in flight after a step, when the step leaves nothing out of time. -/
theorem Inv.wellTimed_advance (hcall : helper.inFlight[i]? = some (action :: rest))
    {more : List TimerAction} (hle : helper.stops ≤ stops)
    (hmore : ∀ other ∈ more, WellTimed stops other) :
    ∀ other ∈ (advanceCall helper.inFlight i more rest).flatten, WellTimed stops other := by
  intro other hmem
  rcases mem_advanceCall.mp hmem with hmem | hmem
  · exact hmore other hmem
  · exact (h.wellTimed other (mem_of_advance hcall hmem)).mono hle

theorem Inv.action_wellTimed
    (hcall : helper.inFlight[i]? = some (action :: rest)) : WellTimed helper.stops action :=
  h.wellTimed action (mem_flatten.mpr
    ⟨_, mem_of_getElem? hcall, mem_cons_self⟩)

/-! ## The steps -/

/-- The state behind a step. -/
def after (helper : TimerHelper) (i : Nat) (rest : List TimerAction)
    (next : TimerHelper × List TimerAction) : TimerHelper :=
  { next.1 with inFlight := advanceCall helper.inFlight i next.2 rest }

theorem Inv.stopSection (hcall : helper.inFlight[i]? = some (.stop :: rest)) :
    (helper.after i rest helper.stopSection).Inv := by
  obtain ⟨hholds, -, htimed⟩ := sum_destroyOld helper.timerInstance
  have hnone : weight (starting (helper.stops + 1))
      (advanceCall helper.inFlight i (destroyOld helper.timerInstance) rest) = 0 := by
    by_contra hne
    obtain ⟨other, hmem, hother⟩ := exists_of_weight hne
    rcases mem_advanceCall.mp hmem with hmem | hmem
    · exact hother (htimed helper.stops other hmem).not_starting
    · exact hother (h.wellTimed other (mem_of_advance hcall hmem)).not_starting
  refine ⟨?_, h.wellTimed_advance hcall (Nat.le_succ _) (htimed _), ?_, fun _ _ => hnone, h.ids,
    h.nodup, fun timer => ?_, nofun⟩
  · dsimp only [after, TimerHelper.stopSection]
    rw [h.seq]
    unfold TIME_SEQS
    omega
  · dsimp only [after, TimerHelper.stopSection]
    rw [hnone]
    exact (by decide : (0 : Int) + 0 ≤ 1)
  have hweight := weight_advance (holds timer) (destroyOld helper.timerInstance) hcall
  have haccount := h.account timer
  rw [hholds] at hweight
  dsimp only [holds] at hweight
  dsimp only [after, TimerHelper.stopSection, recorded] at haccount ⊢
  rw [if_neg (nofun : ¬ none = some timer)]
  omega

theorem Inv.startSection (hcall : helper.inFlight[i]? = some (.start :: rest)) :
    (helper.after i rest helper.startSection).Inv := by
  have haccount (timer : Timer) {more : List TimerAction}
      (hmore : (more.map (holds timer)).sum = 0) :
      weight (holds timer) (advanceCall helper.inFlight i more rest) =
        weight (holds timer) helper.inFlight := by
    have hweight := weight_advance (holds timer) more hcall
    rw [hmore] at hweight
    exact (Int.add_zero _).symm.trans (hweight.trans (Int.add_zero _))
  have hstarting (more : List TimerAction) :
      weight (starting helper.stops) (advanceCall helper.inFlight i more rest) =
        weight (starting helper.stops) helper.inFlight + (more.map (starting helper.stops)).sum :=
    (Int.add_zero _).symm.trans (weight_advance (starting helper.stops) more hcall)
  -- a section that begins no start leaves the invariant to the flag
  have hnothing (pending : Bool)
      (hidle : helper.timerInstance = none → pending = false → helper.isStartPending = false) :
      (helper.after i rest ({ helper with isStartPending := pending }, [])).Inv := by
    refine ⟨h.seq, h.wellTimed_advance hcall (Nat.le_refl _) nofun, ?_, fun hnull hpending => ?_,
      h.ids, h.nodup, fun timer => ?_, h.fresh⟩
    · dsimp only [after]
      rw [hstarting, map_nil, sum_nil, Int.add_zero]
      exact h.single
    · dsimp only [after]
      rw [hstarting, map_nil, sum_nil, Int.add_zero]
      exact h.idle hnull (hidle hnull hpending)
    · dsimp only [after]
      rw [haccount timer rfl]
      exact h.account timer
  unfold TimerHelper.startSection
  split
  case isTrue hfree =>
    obtain ⟨hnull, hpending⟩ := hfree
    by_cases hzero : helper.activeTimeSeq = 0
    · rw [if_pos hzero]
      exact hnothing true nofun
    rw [if_neg hzero]
    refine ⟨h.seq, h.wellTimed_advance hcall (Nat.le_refl _) ?_, ?_, nofun, h.ids, h.nodup,
      fun timer => ?_, h.fresh⟩
    · intro other hmem
      rw [mem_singleton.mp hmem]
      exact ⟨h.seq, Nat.le_refl _⟩
    · dsimp only [after]
      rw [hstarting, h.idle hnull hpending]
      simp [starting, hnull]
    · dsimp only [after]
      rw [haccount timer rfl]
      exact h.account timer
  case isFalse => exact hnothing helper.isStartPending fun _ => id

theorem Inv.createTimeout {curActiveSeq began : Nat}
    (hcall : helper.inFlight[i]? = some (.create curActiveSeq began :: rest)) (succeeds : Bool) :
    (helper.after i rest (helper.createTimeout curActiveSeq began succeeds)).Inv := by
  have htimed := h.action_wellTimed hcall
  -- the start goes on, with the timer or without one
  have hstarting (newTimer : Option Timer) :
      weight (starting helper.stops)
          (advanceCall helper.inFlight i [.record curActiveSeq began newTimer] rest) =
        weight (starting helper.stops) helper.inFlight := by
    have hweight := weight_advance (starting helper.stops) [.record curActiveSeq began newTimer] hcall
    simp only [map_singleton, sum_singleton, starting] at hweight
    omega
  have hholds (timer : Timer) (newTimer : Option Timer) :
      weight (holds timer)
          (advanceCall helper.inFlight i [.record curActiveSeq began newTimer] rest) =
        weight (holds timer) helper.inFlight + if newTimer = some timer then 1 else 0 := by
    have hweight := weight_advance (holds timer) [.record curActiveSeq began newTimer] hcall
    simp only [map_singleton, sum_singleton, holds] at hweight
    omega
  unfold TimerHelper.createTimeout
  cases succeeds with
  | true =>
    rw [if_pos rfl]
    refine ⟨h.seq, h.wellTimed_advance hcall (Nat.le_refl _) ?_, ?_, fun hnull hpending => ?_, ?_, ?_,
      fun timer => ?_, h.fresh⟩
    · intro other hmem
      rw [mem_singleton.mp hmem]
      refine ⟨htimed, fun timer hnew => ?_⟩
      rw [← Option.some.inj hnew]
    · exact (congrArg (· + _) (hstarting _)).trans_le h.single
    · exact (hstarting _).trans (h.idle hnull hpending)
    · intro timer hmem
      show timer.id < (helper.created ++ [_]).length
      rw [length_append, length_singleton]
      rcases mem_concat.mp hmem with hmem | hmem
      · exact Nat.lt_succ_of_lt (h.ids timer hmem)
      · rw [hmem]
        exact Nat.lt_succ_self _
    · refine List.Nodup.append h.nodup (nodup_singleton _) fun timer hmem hnew => ?_
      have hid := h.ids timer hmem
      rw [mem_singleton.mp hnew] at hid
      exact Nat.lt_irrefl _ hid
    have haccount := h.account timer
    dsimp only [after, recorded] at haccount ⊢
    rw [hholds, count_append, count_singleton]
    by_cases hnew : (⟨helper.created.length, began⟩ : Timer) = timer
    · rw [if_pos (congrArg some hnew), if_pos (beq_iff_eq.mpr hnew)]
      push_cast
      omega
    · rw [if_neg (fun heq => hnew (Option.some.inj heq)), if_neg (fun heq => hnew (beq_iff_eq.mp heq))]
      push_cast
      omega
  | false =>
    rw [if_neg Bool.false_ne_true]
    refine ⟨h.seq, h.wellTimed_advance hcall (Nat.le_refl _) ?_, ?_, fun hnull hpending => ?_,
      h.ids, h.nodup, fun timer => ?_, h.fresh⟩
    · intro other hmem
      rw [mem_singleton.mp hmem]
      exact ⟨htimed, nofun⟩
    · exact (congrArg (· + _) (hstarting _)).trans_le h.single
    · exact (hstarting _).trans (h.idle hnull hpending)
    · dsimp only [after]
      rw [hholds, if_neg (nofun : ¬ none = some timer), Int.add_zero]
      exact h.account timer

/-- The second section of a start: when it finds its own number it is the only start that is on its
way, for it has come in time. -/
theorem Inv.recordSection {curActiveSeq began : Nat} {newTimer : Option Timer}
    (hcall : helper.inFlight[i]? = some (.record curActiveSeq began newTimer :: rest))
    (htimely : (helper.stops - began) % TIME_SEQS = 0 → helper.stops = began) :
    (helper.after i rest (helper.recordSection curActiveSeq newTimer)).Inv := by
  obtain ⟨⟨hseq, hbegan⟩, hnew⟩ := h.action_wellTimed hcall
  unfold TimerHelper.recordSection
  split
  case isTrue hactive =>
    have hcurrent : helper.stops = began := by
      refine htimely ?_
      rw [h.seq, hseq] at hactive
      unfold TIME_SEQS at hactive ⊢
      omega
    have hweight := weight_advance (starting helper.stops) [] hcall
    dsimp only [starting] at hweight
    rw [if_pos hcurrent.symm, map_nil, sum_nil] at hweight
    have hnonneg := weight_nonneg (starting_nonneg helper.stops)
      (advanceCall helper.inFlight i [] rest)
    have hsingle := h.single
    have hnull : helper.timerInstance = none := by
      by_contra hsome
      rw [if_neg hsome] at hsingle
      omega
    rw [if_pos hnull] at hsingle
    have hnone : weight (starting helper.stops) (advanceCall helper.inFlight i [] rest) = 0 := by
      omega
    refine ⟨h.seq, h.wellTimed_advance hcall (Nat.le_refl _) nofun, ?_, fun _ _ => hnone, h.ids,
      h.nodup, fun timer => ?_, fun timer hrecorded => ?_⟩
    · dsimp only [after]
      rw [hnone]
      cases newTimer <;> simp
    · have hholds := weight_advance (holds timer) [] hcall
      have haccount := h.account timer
      dsimp only [holds] at hholds
      dsimp only [after, recorded] at haccount ⊢
      rw [map_nil, sum_nil] at hholds
      rw [hnull, if_neg (nofun : ¬ none = some timer)] at haccount
      omega
    · exact (hnew timer hrecorded).trans hcurrent.symm
  case isFalse hstale =>
  obtain ⟨hdestroys, hstarts, htimed⟩ := sum_destroyOld newTimer
  have hbefore : ¬ began = helper.stops := by
    intro heq
    rw [h.seq, hseq, heq] at hstale
    exact hstale rfl
  have hstarting : weight (starting helper.stops)
      (advanceCall helper.inFlight i (destroyOld newTimer) rest) =
        weight (starting helper.stops) helper.inFlight := by
    have hweight := weight_advance (starting helper.stops) (destroyOld newTimer) hcall
    dsimp only [starting] at hweight
    rw [hstarts, if_neg hbefore] at hweight
    omega
  refine ⟨h.seq, h.wellTimed_advance hcall (Nat.le_refl _) (htimed _), ?_,
    fun hnull hpending => ?_, h.ids, h.nodup, fun timer => ?_, h.fresh⟩
  · dsimp only [after]
    rw [hstarting]
    exact h.single
  · dsimp only [after]
    rw [hstarting]
    exact h.idle hnull hpending
  have hholds := weight_advance (holds timer) (destroyOld newTimer) hcall
  have haccount := h.account timer
  rw [hdestroys] at hholds
  dsimp only [holds] at hholds
  dsimp only [after, recorded] at haccount ⊢
  omega

theorem Inv.destroyTimeout {timer : Timer}
    (hcall : helper.inFlight[i]? = some (.destroy timer :: rest)) :
    (helper.after i rest ({ helper with destroyed := helper.destroyed ++ [timer] }, [])).Inv := by
  have hstarting : weight (starting helper.stops) (advanceCall helper.inFlight i [] rest) =
      weight (starting helper.stops) helper.inFlight :=
    (Int.add_zero _).symm.trans ((weight_advance (starting helper.stops) [] hcall).trans
      (Int.add_zero _))
  refine ⟨h.seq, h.wellTimed_advance hcall (Nat.le_refl _) nofun, ?_, fun hnull hpending => ?_, h.ids,
    h.nodup, fun other => ?_, h.fresh⟩
  · dsimp only [after]
    rw [hstarting]
    exact h.single
  · dsimp only [after]
    rw [hstarting]
    exact h.idle hnull hpending
  have hholds := weight_advance (holds other) [] hcall
  have haccount := h.account other
  dsimp only [holds] at hholds
  dsimp only [after, recorded] at haccount ⊢
  rw [map_nil, sum_nil] at hholds
  rw [count_append, count_singleton]
  by_cases hsame : timer = other
  · rw [if_pos hsame] at hholds
    rw [if_pos (beq_iff_eq.mpr hsame)]
    push_cast
    omega
  rw [if_neg hsame] at hholds
  rw [if_neg (fun heq => hsame (beq_iff_eq.mp heq))]
  push_cast
  omega

theorem Inv.begin {actions : List TimerAction}
    (hactions : ∀ action ∈ actions, action = .stop ∨ action = .start) :
    (helper.begin actions).Inv := by
  have hnone (f : TimerAction → Int) (hstop : f .stop = 0) (hstart : f .start = 0) :
      weight f (helper.inFlight ++ [actions]) = weight f helper.inFlight := by
    rw [weight_begin, sum_eq_zero, Int.add_zero]
    intro value hvalue
    obtain ⟨action, hmem, rfl⟩ := mem_map.mp hvalue
    rcases hactions action hmem with rfl | rfl
    · exact hstop
    · exact hstart
  refine ⟨h.seq, fun action hmem => ?_, ?_, fun hnull hpending => ?_, h.ids, h.nodup,
    fun timer => ?_, h.fresh⟩
  · have hmem : action ∈ (helper.inFlight ++ [actions]).flatten := hmem
    rw [flatten_append, flatten_singleton, mem_append] at hmem
    rcases hmem with hmem | hmem
    · exact h.wellTimed action hmem
    · rcases hactions action hmem with rfl | rfl <;> trivial
  · dsimp only [TimerHelper.begin]
    rw [hnone _ rfl rfl]
    exact h.single
  · dsimp only [TimerHelper.begin]
    rw [hnone _ rfl rfl]
    exact h.idle hnull hpending
  · dsimp only [TimerHelper.begin]
    rw [hnone _ rfl rfl]
    exact h.account timer

theorem Inv.handle {event : TimerEvent} (htimely : helper.Timely event)
    {next : TimerHelper} (hnext : helper.handle event = some next) : next.Inv := by
  cases event with
  | start =>
    cases hnext
    exact h.begin (by simp)
  | stop | uninit =>
    cases hnext
    exact h.begin (by simp)
  | restart =>
    cases hnext
    exact h.begin (by simp)
  | step i succeeds =>
    unfold TimerHelper.handle at hnext
    dsimp only at hnext
    split at hnext
    · next action rest hcall =>
      cases hnext
      cases action with
      | stop => exact h.stopSection hcall
      | start => exact h.startSection hcall
      | create => exact h.createTimeout hcall succeeds
      | record =>
        exact h.recordSection hcall (htimely _ _ _ _ hcall)
      | destroy => exact h.destroyTimeout hcall
    · cases hnext

theorem Inv.sound : helper.Sound where
  once timer hmem := by
    rw [h.account timer, count_eq_one_of_mem h.nodup hmem]
    rfl
  fresh := h.fresh
  finished hidle timer hmem := by
    have haccount := h.account timer
    rw [count_eq_one_of_mem h.nodup hmem] at haccount
    have hweight : weight (holds timer) helper.inFlight = 0 := by
      unfold weight
      rw [flatten_eq_nil_iff.mpr hidle]
      rfl
    unfold recorded at haccount
    split at haccount
    case isTrue hrecorded =>
      rw [if_pos hrecorded]
      omega
    case isFalse hrecorded =>
      rw [if_neg hrecorded]
      omega

end

/-- Throughout a run in which no start ends a multiple of 2^31 stops behind its beginning, every
timer is destroyed once or recorded, and none is recorded behind a later stop. -/
theorem sound_throughout (events : List TimerEvent) (h : StepsMeet handle Timely {} events) :
    Throughout handle Sound {} events := by
  intro front back helper hsplit hrun
  refine Inv.sound ((hsplit ▸ h).front.preserves ?_ inv_init hrun)
  intro helper event next hinv htimely hnext
  exact hinv.handle htimely hnext

/-- A start that is stopped between its sections destroys its timer. -/
theorem sound_stopped :
    Throughout handle Sound {}
      [.start, .step 0 true, .step 0 true, .stop, .step 1 true, .step 0 true] := by
  refine sound_throughout _ ?_
  refine .cons trivial fun s₁ h₁ => ?_
  cases h₁
  refine .cons (fun _ _ _ _ hcall => nomatch hcall) fun s₂ h₂ => ?_
  cases h₂
  refine .cons (fun _ _ _ _ hcall => nomatch hcall) fun s₃ h₃ => ?_
  cases h₃
  refine .cons trivial fun s₄ h₄ => ?_
  cases h₄
  refine .cons (fun _ _ _ _ hcall => nomatch hcall) fun s₅ h₅ => ?_
  cases h₅
  refine .cons (fun _ _ _ _ hcall hmod => ?_) fun _ _ => stepsMeet_nil _ _
  cases hcall
  exact absurd hmod (by decide)

/-! ## A start that comes too late -/

/-- A number of stops, one after the other. -/
def manyStops (count : Nat) : List TimerEvent :=
  (List.range count).flatMap fun k => [.stop, .step (k + 1) true]

/-- A start has created its timer, and so many stops have gone by. -/
def stalled (count : Nat) : TimerHelper where
  isStartPending := decide (count = 0)
  activeTimeSeq := (1 + count) % TIME_SEQS
  inFlight := [.record 1 0 (some ⟨0, 0⟩)] :: List.replicate count []
  stops := count
  created := [⟨0, 0⟩]

theorem exec_manyStops (count : Nat) : exec handle (stalled 0) (manyStops count) = some (stalled count) := by
  induction count with
  | zero => rfl
  | succ count ih =>
    unfold manyStops at ih ⊢
    rw [range_succ, flatMap_append, exec_append, ih, flatMap_singleton]
    show exec handle (stalled count) [.stop, .step (count + 1) true] = _
    have hcall : ((stalled count).begin [.stop]).inFlight[count + 1]? = some [.stop] := by
      show ([.record 1 0 (some ⟨0, 0⟩)] :: (List.replicate count [] ++ [[TimerAction.stop]]))[count + 1]? = _
      rw [List.getElem?_cons_succ, getElem?_append_right (by simp)]
      simp
    have hflight : advanceCall ((stalled count).begin [.stop]).inFlight (count + 1) [] [] =
        (stalled (count + 1)).inFlight := by
      rw [advanceCall_eq_set hcall]
      show ([.record 1 0 (some ⟨0, 0⟩)] ::
        (List.replicate count [] ++ [[TimerAction.stop]])).set (count + 1) _ = _
      rw [set_cons_succ, set_append_right _ _ (by simp)]
      simp [stalled, replicate_succ']
    have hseq : ((1 + count) % TIME_SEQS + 1) % TIME_SEQS = (1 + (count + 1)) % TIME_SEQS := by
      unfold TIME_SEQS
      omega
    show (handle ((stalled count).begin [.stop]) (.step (count + 1) true)).bind _ = _
    unfold handle
    simp only [hcall]
    show some { ((stalled count).begin [.stop]).stopSection.1 with
      inFlight := advanceCall ((stalled count).begin [.stop]).inFlight (count + 1) [] [] } = _
    rw [hflight]
    unfold TimerHelper.stopSection TimerHelper.begin stalled
    rw [hseq]
    simp

theorem exec_record (count : Nat) :
    exec handle (stalled count) [.step 0 true] =
      some ((stalled count).after 0 [] ((stalled count).recordSection 1 (some ⟨0, 0⟩))) :=
  rfl

/-- A start that is still about to record its timer when the sequence number has come around. -/
def lateStart : List TimerEvent :=
  [.start, .step 0 true, .step 0 true] ++ (manyStops TIME_SEQS ++ [.step 0 true])

/-- The late start records a timer that every stop should have destroyed. -/
theorem stale_timer_recorded : ¬ Throughout handle Sound {} lateStart := by
  intro h
  have hstart : exec handle {} [.start, .step 0 true, .step 0 true] = some (stalled 0) := rfl
  have hrun : exec handle {} lateStart =
      some ((stalled TIME_SEQS).after 0 [] ((stalled TIME_SEQS).recordSection 1 (some ⟨0, 0⟩))) := by
    unfold lateStart
    rw [exec_append, hstart, Option.bind_some, exec_append, exec_manyStops, Option.bind_some]
    exact exec_record TIME_SEQS
  have hfresh := (h lateStart [] _ (append_nil _).symm hrun).fresh ⟨0, 0⟩
  have hnumber : (stalled TIME_SEQS).activeTimeSeq = 1 := by
    show (1 + TIME_SEQS) % TIME_SEQS = 1
    decide
  unfold TimerHelper.recordSection at hfresh
  rw [if_pos hnumber] at hfresh
  exact absurd (hfresh rfl) (by decide)

end TimerHelper

end Bdt
