import Bdt.Base.History
import Bdt.Base.Transition
import Bdt.SuperNode.Server

/-!
# The TCP connections that are idle

A model of the two sets of TCP interfaces of `server.ts`. An interface that a call has come from is in
one of them; the timer closes those that are to be freed and puts the current ones in their place,
and a package takes its interface back. `m_tcpLastClearTime` is never set again, so that the timer
changes the sets at every tick after the first `tcpFreeInterval`. `kept_of_timely` is about the runs
in which it does not come to that.
-/

namespace Bdt

open Base List

/-- `m_tcpInterfaces`, `m_freeTCPInterfaces` and `m_tcpLastClearTime`. -/
structure TcpInterfaces where
  tcpInterfaces : List Nat := []
  freeTCPInterfaces : List Nat := []
  tcpLastClearTime : Nat

namespace TcpInterfaces

/-- `add` of a set. -/
def addTo (set : List Nat) (i : Nat) : List Nat :=
  if i ∈ set then set else set ++ [i]

/-- `delete` of a set. -/
def deleteFrom (set : List Nat) (i : Nat) : List Nat :=
  set.filter (· ≠ i)

theorem mem_addTo {set : List Nat} {i j : Nat} : j ∈ addTo set i ↔ j ∈ set ∨ j = i := by
  unfold addTo
  split
  case isTrue hmem => exact ⟨.inl, (·.elim id (· ▸ hmem))⟩
  case isFalse => simp

theorem mem_deleteFrom {set : List Nat} {i j : Nat} : j ∈ deleteFrom set i ↔ j ∈ set ∧ j ≠ i := by
  simp [deleteFrom]

/-- What `packageHandle` does to the sets. -/
def packageHandle (config : SnConfig) (s : TcpInterfaces) (i : Nat) (package : JsPackage) :
    TcpInterfaces :=
  if SnServer.drops config package then s
  else if i ∈ s.freeTCPInterfaces then
    { s with
      tcpInterfaces := addTo s.tcpInterfaces i
      freeTCPInterfaces := deleteFrom s.freeTCPInterfaces i }
  else s

/-- `removeHandler`. -/
def removeHandler (s : TcpInterfaces) (i : Nat) : TcpInterfaces :=
  if i ∈ s.tcpInterfaces then { s with tcpInterfaces := deleteFrom s.tcpInterfaces i }
  else { s with freeTCPInterfaces := deleteFrom s.freeTCPInterfaces i }

/-- A tick at this time changes the sets. -/
def clears (s : TcpInterfaces) (tcpFreeInterval now : Nat) : Bool :=
  tcpFreeInterval ≤ now - s.tcpLastClearTime

/-- The timer: the sets after it, and the interfaces that it closes. -/
def onTimer (s : TcpInterfaces) (tcpFreeInterval now : Nat) : TcpInterfaces × List Nat :=
  if s.clears tcpFreeInterval now then
    ({ s with tcpInterfaces := [], freeTCPInterfaces := s.tcpInterfaces }, s.freeTCPInterfaces)
  else (s, [])

end TcpInterfaces

/-! ## Runs -/

inductive TcpIdleEvent where
  /-- The first call on an interface, through the listener. -/
  | listen (i : Nat) (package : JsPackage) (now : Nat)
  /-- A later package. -/
  | package (i : Nat) (package : JsPackage) (now : Nat)
  | timer (now : Nat)
  /-- The socket of an interface is closed, ends or fails. -/
  | close (i : Nat)

inductive TcpIdleEntry where
  | arrived (i now : Nat)
  /-- The timer has closed the interface. -/
  | closed (i now : Nat)
  deriving DecidableEq

/-- The sets, the interfaces with a handler, those of them that the timer has not closed, the time
now and that of the last change of the sets, and what has happened. -/
structure TcpIdleRun where
  sets : TcpInterfaces
  handlers : List Nat := []
  opened : List Nat := []
  clock : Nat
  lastSwap : Nat
  history : List TcpIdleEntry := []

namespace TcpIdleRun

open TcpInterfaces

/-- The super node is started. -/
def start (now : Nat) : TcpIdleRun where
  sets := { tcpLastClearTime := now }
  clock := now
  lastSwap := now

/-- A package arrives on an interface. Only a call has a handler. -/
def receive (config : SnConfig) (run : TcpIdleRun) (i : Nat) (package : JsPackage) (now : Nat) :
    TcpIdleRun :=
  { run with
    sets := if package.cmdType = .snCallReq then run.sets.packageHandle config i package
      else run.sets
    clock := now
    history := run.history ++ [.arrived i now] }

/-- An interface gets a handler. -/
def enter (run : TcpIdleRun) (i : Nat) : TcpIdleRun :=
  { run with
    sets := { run.sets with tcpInterfaces := addTo run.sets.tcpInterfaces i }
    handlers := i :: run.handlers
    opened := i :: run.opened }

/-- The events come at times that do not decrease. -/
def next (config : SnConfig) (tcpFreeInterval : Nat) (run : TcpIdleRun) :
    TcpIdleEvent → Option TcpIdleRun
  | .listen i package now =>
    if run.clock ≤ now ∧ i ∉ run.handlers ∧ package.cmdType = .snCallReq then
      some ((run.enter i).receive config i package now)
    else none
  | .package i package now =>
    if run.clock ≤ now ∧ i ∈ run.handlers then some (run.receive config i package now) else none
  | .timer now =>
    if run.clock ≤ now then
      let (sets, willFree) := run.sets.onTimer tcpFreeInterval now
      some { run with
        sets
        opened := run.opened.filter (· ∉ willFree)
        clock := now
        lastSwap := if run.sets.clears tcpFreeInterval now then now else run.lastSwap
        history := run.history ++ willFree.map (.closed · now) }
    else none
  | .close i =>
    if i ∈ run.handlers then
      some { run with
        sets := run.sets.removeHandler i
        handlers := deleteFrom run.handlers i
        opened := deleteFrom run.opened i }
    else none

/-- The timer closes an interface that no package has arrived on in the interval before. -/
def Idle (tcpFreeInterval : Nat) (before : List TcpIdleEntry) : TcpIdleEntry → Prop
  | .closed i now => ∀ t, .arrived i t ∈ before → t + tcpFreeInterval ≤ now
  | .arrived _ _ => True

structure Kept (tcpFreeInterval : Nat) (run : TcpIdleRun) : Prop where
  separate : ∀ i ∈ run.opened, i ∈ run.sets.tcpInterfaces ↔ i ∉ run.sets.freeTCPInterfaces
  idle : Justified (Idle tcpFreeInterval) run.history

/-- What is to be freed was put there an interval ago when it is freed, and a package of an interface
that is to be freed has a handler and is not dropped. -/
def Timely (config : SnConfig) (tcpFreeInterval : Nat) (run : TcpIdleRun) : TcpIdleEvent → Prop
  | .package i package _ => i ∈ run.sets.freeTCPInterfaces →
    package.cmdType = .snCallReq ∧ SnServer.drops config package = false
  | .timer now => run.sets.clears tcpFreeInterval now → run.sets.freeTCPInterfaces ≠ [] →
    run.lastSwap + tcpFreeInterval ≤ now
  | _ => True

/-- No package has arrived on what is to be freed since the sets were changed. -/
structure Inv (tcpFreeInterval : Nat) (run : TcpIdleRun) : Prop where
  apart : ∀ i ∈ run.sets.tcpInterfaces, i ∉ run.sets.freeTCPInterfaces
  held : ∀ i ∈ run.opened, i ∈ run.sets.tcpInterfaces ∨ i ∈ run.sets.freeTCPInterfaces
  handled : ∀ i, i ∈ run.sets.tcpInterfaces ∨ i ∈ run.sets.freeTCPInterfaces → i ∈ run.handlers
  arrived : ∀ i t, .arrived i t ∈ run.history → t ≤ run.clock
  waiting : ∀ i ∈ run.sets.freeTCPInterfaces, ∀ t, .arrived i t ∈ run.history → t ≤ run.lastSwap
  idle : Justified (Idle tcpFreeInterval) run.history

variable {config : SnConfig} {tcpFreeInterval now i : Nat} {run after : TcpIdleRun}
  {package : JsPackage}

section

variable (h : run.Inv tcpFreeInterval)
include h

theorem Inv.kept : run.Kept tcpFreeInterval where
  separate i hi := ⟨h.apart i, fun hnot => (h.held i hi).resolve_right hnot⟩
  idle := h.idle

theorem Inv.enter (hnew : i ∉ run.handlers) : (run.enter i).Inv tcpFreeInterval := by
  have hfresh : i ∉ run.sets.freeTCPInterfaces := fun hfree => hnew (h.handled i (.inr hfree))
  refine ⟨fun j hj => ?_, fun j hj => ?_, fun j hj => ?_, h.arrived, h.waiting, h.idle⟩
  · rcases mem_addTo.mp hj with hj | rfl
    · exact h.apart j hj
    · exact hfresh
  · rcases mem_cons.mp hj with rfl | hj
    · exact .inl (mem_addTo.mpr (.inr rfl))
    · exact (h.held j hj).imp_left fun hj => mem_addTo.mpr (.inl hj)
  · rcases hj with hj | hj
    · exact mem_cons.mpr ((mem_addTo.mp hj).symm.imp_right fun hj => h.handled j (.inl hj))
    · exact mem_cons_of_mem _ (h.handled j (.inr hj))

/-- A package on an interface that is to be freed takes it back. -/
theorem Inv.receive (hclock : run.clock ≤ now)
    (hhandler : i ∈ run.handlers) (hok : i ∈ run.sets.freeTCPInterfaces →
      package.cmdType = .snCallReq ∧ SnServer.drops config package = false) :
    (run.receive config i package now).Inv tcpFreeInterval := by
  have hsets : ∀ j, (j ∈ (run.receive config i package now).sets.tcpInterfaces ↔
      j ∈ run.sets.tcpInterfaces ∨ i ∈ run.sets.freeTCPInterfaces ∧ j = i) ∧
      (j ∈ (run.receive config i package now).sets.freeTCPInterfaces ↔
        j ∈ run.sets.freeTCPInterfaces ∧ j ≠ i) := by
    intro j
    unfold TcpIdleRun.receive packageHandle
    by_cases hfree : i ∈ run.sets.freeTCPInterfaces
    · simp [hok hfree, hfree, mem_addTo, mem_deleteFrom]
    · simp only [hfree, if_false, ite_self, false_and, or_false, iff_self_and, true_and]
      exact fun hj => ne_of_mem_of_not_mem hj hfree
  refine ⟨fun j hj hfree => ?_, fun j hj => ?_, fun j hj => ?_, fun j t hmem => ?_,
    fun j hj t hmem => ?_, h.idle.concat trivial⟩
  · obtain ⟨hfree, hne⟩ := (hsets j).2.mp hfree
    exact h.apart j (((hsets j).1.mp hj).resolve_right fun hsame => hne hsame.2) hfree
  · rw [(hsets j).1, (hsets j).2]
    have := h.held j hj
    by_cases heq : j = i
    · subst heq
      tauto
    · tauto
  · rw [(hsets j).1, (hsets j).2] at hj
    rcases hj with (hj | ⟨-, rfl⟩) | ⟨hj, -⟩
    · exact h.handled j (.inl hj)
    · exact hhandler
    · exact h.handled j (.inr hj)
  · rcases mem_concat.mp hmem with hmem | hmem
    · exact Nat.le_trans (h.arrived j t hmem) hclock
    · cases hmem
      exact Nat.le_refl _
  obtain ⟨hfree, hne⟩ := (hsets j).2.mp hj
  rcases mem_concat.mp hmem with hmem | hmem
  · exact h.waiting j hfree t hmem
  · exact absurd (TcpIdleEntry.arrived.inj hmem).1 hne

/-- A tick changes the sets when an interval has passed since the last change, or nothing waits. -/
theorem Inv.timer (hok : Timely config tcpFreeInterval run (.timer now))
    (hnext : next config tcpFreeInterval run (.timer now) = some after) :
    after.Inv tcpFreeInterval := by
  simp only [next, onTimer] at hnext
  obtain ⟨hclock, hnext⟩ := Option.ite_none_right_eq_some.mp hnext
  have hbefore := fun i t hmem => Nat.le_trans (h.arrived i t hmem) hclock
  by_cases hclears : run.sets.clears tcpFreeInterval now = true
  case pos =>
    have harrived : ∀ {i t}, .arrived i t ∈ run.history ++
        run.sets.freeTCPInterfaces.map (.closed · now) → .arrived i t ∈ run.history := by
      intro i t hmem
      refine (mem_append.mp hmem).resolve_right fun hmem => ?_
      obtain ⟨_, -, heq⟩ := mem_map.mp hmem
      cases heq
    simp only [hclears, if_true, Option.some.injEq] at hnext
    subst hnext
    refine ⟨nofun, fun i hi => ?_, fun i hi => h.handled i (.inl (hi.resolve_left not_mem_nil)),
      fun i t hmem => hbefore i t (harrived hmem), fun i _ t hmem => hbefore i t (harrived hmem), ?_⟩
    · obtain ⟨hi, hnot⟩ := mem_filter.mp hi
      exact .inr ((h.held i hi).resolve_right (of_decide_eq_true hnot))
    refine h.idle.extend fun front entry back heq => ?_
    obtain ⟨i, hi, rfl⟩ := mem_map.mp (heq ▸ mem_append_right front mem_cons_self)
    intro t hmem
    have hfirst : .arrived i t ∈ run.history :=
      harrived (heq ▸ (append_assoc .. ▸ mem_append_left (.closed i now :: back) hmem))
    have hwaiting := h.waiting i hi t hfirst
    have hspaced := hok hclears (ne_nil_of_mem hi)
    omega
  case neg =>
  simp only [hclears, Bool.false_eq_true, if_false, Option.some.injEq] at hnext
  subst hnext
  refine ⟨h.apart, fun i hi => h.held i (mem_filter.mp hi).1, h.handled, ?_, ?_, ?_⟩ <;>
    rw [map_nil, append_nil]
  · exact hbefore
  · exact h.waiting
  · exact h.idle

theorem Inv.close
    (hnext : next config tcpFreeInterval run (.close i) = some after) : after.Inv tcpFreeInterval := by
  obtain ⟨hhandler, hnext⟩ := Option.ite_none_right_eq_some.mp hnext
  obtain rfl := Option.some.inj hnext
  have hremoved : ∀ j, (j ∈ (run.sets.removeHandler i).tcpInterfaces ↔
      j ∈ run.sets.tcpInterfaces ∧ j ≠ i) ∧ (j ∈ (run.sets.removeHandler i).freeTCPInterfaces ↔
      j ∈ run.sets.freeTCPInterfaces ∧ j ≠ i) := by
    intro j
    unfold removeHandler
    split
    case isTrue hmem =>
      refine ⟨mem_deleteFrom, fun hj => ⟨hj, ?_⟩, And.left⟩
      exact (ne_of_mem_of_not_mem hj (h.apart i hmem))
    case isFalse hnot =>
      exact ⟨⟨fun hj => ⟨hj, ne_of_mem_of_not_mem hj hnot⟩, And.left⟩, mem_deleteFrom⟩
  refine ⟨?_, ?_, ?_, h.arrived, ?_, h.idle⟩ <;>
    simp only [hremoved, mem_deleteFrom]
  · exact fun j hj hfree => h.apart j hj.1 hfree.1
  · exact fun j hj => (h.held j hj.1).imp (⟨·, hj.2⟩) (⟨·, hj.2⟩)
  · rintro j (hj | hj)
    · exact ⟨h.handled j (.inl hj.1), hj.2⟩
    · exact ⟨h.handled j (.inr hj.1), hj.2⟩
  · exact fun j hj => h.waiting j hj.1

theorem Inv.step (event : TcpIdleEvent) (hok : Timely config tcpFreeInterval run event)
    (hnext : next config tcpFreeInterval run event = some after) : after.Inv tcpFreeInterval := by
  cases event with
  | listen i =>
    obtain ⟨⟨hclock, hnew, -⟩, hnext⟩ := Option.ite_none_right_eq_some.mp hnext
    obtain rfl := Option.some.inj hnext
    exact (h.enter hnew).receive hclock mem_cons_self fun hfree =>
      absurd (h.handled i (.inr hfree)) hnew
  | package =>
    obtain ⟨⟨hclock, hhandler⟩, hnext⟩ := Option.ite_none_right_eq_some.mp hnext
    obtain rfl := Option.some.inj hnext
    exact h.receive hclock hhandler hok
  | timer => exact h.timer hok hnext
  | close => exact h.close hnext

end

/-- In every run whose steps are timely, an open interface is in one of the sets and the timer closes
what is idle. -/
theorem kept_of_timely (config : SnConfig) (tcpFreeInterval now : Nat) (events : List TcpIdleEvent)
    (h : StepsMeet (next config tcpFreeInterval) (Timely config tcpFreeInterval) (start now) events) :
    Throughout (next config tcpFreeInterval) (Kept tcpFreeInterval) (start now) events := by
  intro front back u heq hfront
  have hinv : u.Inv tcpFreeInterval :=
    (heq ▸ h).front.preserves (fun _ event _ hinv hok hnext => Inv.step hinv event hok hnext)
      ⟨nofun, nofun, nofun, nofun, nofun, justified_nil⟩ hfront
  exact hinv.kept

/-- Without encryption. -/
def plainConfig : SnConfig where
  timeout := 0
  defaultInterval := 0
  maxTimes := 0
  keyHash := id

def plainCall : JsPackage where
  cmdType := .snCallReq
  sequence := 0

/-- What is to be freed is closed an interval after it was put there. -/
theorem kept_of_timely_one : Throughout (next plainConfig 5000) (Kept 5000) (start 0)
    [.listen 0 plainCall 100, .timer 5000, .timer 10000] := by
  refine kept_of_timely plainConfig 5000 0 _ ?_
  refine .cons trivial fun _ h => ?_
  cases h
  refine .cons (fun _ hne => absurd rfl hne) fun _ h => ?_
  cases h
  exact .cons (fun _ _ => by decide) fun _ _ => stepsMeet_nil _ _

/-- A call arrives 300 milliseconds before the timer closes its interface. -/
theorem closed_early : ¬ Throughout (next plainConfig 5000) (Kept 5000) (start 0)
    [.listen 0 plainCall 5100, .timer 5200, .timer 5400] := by
  intro h
  have hidle := (h _ [] _ (append_nil _).symm rfl).idle [.arrived 0 5100] (.closed 0 5400) [] rfl
  exact absurd (hidle 5100 (mem_singleton_self _)) (by decide)

end TcpIdleRun

end Bdt
