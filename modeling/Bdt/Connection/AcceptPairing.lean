import Mathlib.Data.List.Perm.Basic
import Bdt.Base.Matching
import Bdt.Base.Transition

/-!
# The pairing of passive connections and accepts

A model of `Bdt_FirePreAcceptConnection` and of `BdtAcceptConnection` for the listener of a port. Each
of them has a section under `acceptLock`, one step here, and calls back outside of the lock, another
step, at any time after the section. A connection and a callback are named by numbers; the references
of connections and user data are left out.

`accepts_paired`: the connections are handed out in the order in which they came, to the accepts in
the order in which they were made.
-/

namespace Bdt

open Base List

/-- `AcceptRequestListItem`. -/
structure AcceptRequestListItem where
  callback : Nat
  userData : Nat
  deriving DecidableEq

/-- The members of `BdtConnectionListener` that `acceptLock` protects. -/
structure AcceptQueues where
  backlog : List Nat := []
  acceptRequests : List AcceptRequestListItem := []

/-- A call of a `BdtAcceptConnectionCallback`, with `BFX_RESULT_SUCCESS`. -/
structure AcceptCallback where
  callback : Nat
  firstQuestion : List UInt8
  connection : Nat
  userData : Nat
  deriving DecidableEq

/-- `CallbackAccept`. -/
def callbackAccept (firstQuestion : Nat → List UInt8) (connection : Nat)
    (request : AcceptRequestListItem) : AcceptCallback where
  callback := request.callback
  firstQuestion := firstQuestion connection
  connection := connection
  userData := request.userData

namespace AcceptQueues

/-- The section of `Bdt_FirePreAcceptConnection`. -/
def firePreAcceptConnection (listener : AcceptQueues) (connection : Nat) :
    AcceptQueues × Option AcceptRequestListItem :=
  match listener.acceptRequests with
  | request :: acceptRequests => ({ listener with acceptRequests }, some request)
  | [] => ({ listener with backlog := listener.backlog ++ [connection] }, none)

/-- The section of `BdtAcceptConnection`. -/
def acceptConnection (listener : AcceptQueues) (request : AcceptRequestListItem) :
    AcceptQueues × Option Nat :=
  match listener.acceptRequests, listener.backlog with
  | [], item :: backlog => ({ listener with backlog }, some item)
  | _, _ => ({ listener with acceptRequests := listener.acceptRequests ++ [request] }, none)

end AcceptQueues

/-- A step of one of the threads that call the two functions. -/
inductive AcceptStep where
  | fire (connection : Nat)
  | accept (request : AcceptRequestListItem)
  /-- A thread that has left its section with a pair calls back. -/
  | callback (index : Nat)

/-- A listener, and what has happened at it. -/
structure AcceptRun where
  listener : AcceptQueues := {}
  arrived : List Nat := []
  asked : List AcceptRequestListItem := []
  /-- The pairs in the order of the sections. -/
  handed : List (Nat × AcceptRequestListItem) := []
  /-- The pairs that were not called back yet. -/
  running : List (Nat × AcceptRequestListItem) := []
  called : List AcceptCallback := []

namespace AcceptRun

/-- A pair leaves a section. -/
def hand (run : AcceptRun) (connection : Nat) (request : AcceptRequestListItem) : AcceptRun :=
  { run with
    handed := run.handed ++ [(connection, request)]
    running := run.running ++ [(connection, request)] }

def step (firstQuestion : Nat → List UInt8) (run : AcceptRun) : AcceptStep → Option AcceptRun
  | .fire connection =>
    let run := { run with arrived := run.arrived ++ [connection] }
    match run.listener.firePreAcceptConnection connection with
    | (listener, some request) => some ({ run with listener }.hand connection request)
    | (listener, none) => some { run with listener }
  | .accept request =>
    let run := { run with asked := run.asked ++ [request] }
    match run.listener.acceptConnection request with
    | (listener, some connection) => some ({ run with listener }.hand connection request)
    | (listener, none) => some { run with listener }
  | .callback index =>
    (run.running[index]?).map fun (connection, request) =>
      { run with
        running := run.running.eraseIdx index
        called := run.called ++ [callbackAccept firstQuestion connection request] }

/-- The queues of the listener, with the pairs that they gave, are two queues that are matched. -/
def matching (run : AcceptRun) : Matching Nat AcceptRequestListItem where
  lefts := run.listener.backlog
  rights := run.listener.acceptRequests
  pairs := run.handed

end AcceptRun

/-- The calls for pairs. -/
def callbacksOf (firstQuestion : Nat → List UInt8) (pairs : List (Nat × AcceptRequestListItem)) :
    List AcceptCallback :=
  pairs.map fun (connection, request) => callbackAccept firstQuestion connection request

/-- What holds after any steps. -/
structure Paired (firstQuestion : Nat → List UInt8) (run : AcceptRun) : Prop where
  matched : Matched run.arrived run.asked run.matching
  called : (run.called ++ callbacksOf firstQuestion run.running).Perm
    (callbacksOf firstQuestion run.handed)

variable {firstQuestion : Nat → List UInt8} {run after : AcceptRun}

theorem callbacksOf_concat (pairs : List (Nat × AcceptRequestListItem)) (connection : Nat)
    (request : AcceptRequestListItem) :
    callbacksOf firstQuestion (pairs ++ [(connection, request)]) =
      callbacksOf firstQuestion pairs ++ [callbackAccept firstQuestion connection request] :=
  map_append

/-- A section gives a pair to its thread, or none. -/
def HandsOut (run after : AcceptRun) : Prop :=
  after.called = run.called ∧
    (after.handed = run.handed ∧ after.running = run.running ∨
      ∃ pair, after.handed = run.handed ++ [pair] ∧ after.running = run.running ++ [pair])

/-- The section of a new connection adds it on the left. -/
theorem step_fire {connection : Nat}
    (h : run.step firstQuestion (.fire connection) = some after) :
    after.matching = run.matching.addLeft connection ∧ HandsOut run after ∧
      after.arrived = run.arrived ++ [connection] ∧ after.asked = run.asked := by
  unfold AcceptRun.step AcceptQueues.firePreAcceptConnection at h
  unfold AcceptRun.matching Matching.addLeft
  cases hrequests : run.listener.acceptRequests with
  | nil =>
    simp only [hrequests] at h
    cases h
    exact ⟨by simp only [hrequests], ⟨rfl, .inl ⟨rfl, rfl⟩⟩, rfl, rfl⟩
  | cons request =>
    simp only [hrequests] at h
    cases h
    exact ⟨rfl, ⟨rfl, .inr ⟨(connection, request), rfl, rfl⟩⟩, rfl, rfl⟩

/-- The section of an accept adds it on the right, as long as only one of the queues waits. -/
theorem step_accept {request : AcceptRequestListItem}
    (honeSide : run.listener.backlog = [] ∨ run.listener.acceptRequests = [])
    (h : run.step firstQuestion (.accept request) = some after) :
    after.matching = run.matching.addRight request ∧ HandsOut run after ∧
      after.arrived = run.arrived ∧ after.asked = run.asked ++ [request] := by
  unfold AcceptRun.step at h
  unfold AcceptRun.matching Matching.addRight
  cases hbacklog : run.listener.backlog with
  | nil =>
    have hsection : run.listener.acceptConnection request =
        ({ run.listener with acceptRequests := run.listener.acceptRequests ++ [request] }, none) := by
      cases hrequests : run.listener.acceptRequests <;>
        simp only [AcceptQueues.acceptConnection, hrequests, hbacklog]
    simp only [hsection] at h
    cases h
    exact ⟨by simp only [hbacklog], ⟨rfl, .inl ⟨rfl, rfl⟩⟩, rfl, rfl⟩
  | cons connection backlog =>
    have hrequests := honeSide.resolve_left (by rw [hbacklog]; nofun)
    have hsection : run.listener.acceptConnection request =
        ({ run.listener with backlog }, some connection) := by
      simp only [AcceptQueues.acceptConnection, hrequests, hbacklog]
    simp only [hsection] at h
    cases h
    exact ⟨rfl, ⟨rfl, .inr ⟨(connection, request), rfl, rfl⟩⟩, rfl, rfl⟩

theorem step_callback {index : Nat}
    (h : run.step firstQuestion (.callback index) = some after) :
    ∃ connection request, run.running[index]? = some (connection, request) ∧
      after = { run with
        running := run.running.eraseIdx index
        called := run.called ++ [callbackAccept firstQuestion connection request] } := by
  obtain ⟨⟨connection, request⟩, hpair, hafter⟩ := Option.map_eq_some_iff.mp h
  exact ⟨connection, request, hpair, hafter.symm⟩

theorem Paired.handsOut (h : Paired firstQuestion run) (hout : HandsOut run after) :
    (after.called ++ callbacksOf firstQuestion after.running).Perm
      (callbacksOf firstQuestion after.handed) := by
  obtain ⟨hcalled, ⟨hhanded, hrunning⟩ | ⟨⟨connection, request⟩, hhanded, hrunning⟩⟩ := hout
  · rw [hcalled, hhanded, hrunning]
    exact h.called
  · rw [hcalled, hhanded, hrunning, callbacksOf_concat, callbacksOf_concat, ← append_assoc]
    exact h.called.append_right _

theorem Paired.step (h : Paired firstQuestion run) {step : AcceptStep}
    (hstep : run.step firstQuestion step = some after) : Paired firstQuestion after := by
  cases step with
  | fire connection =>
    obtain ⟨hmatching, hout, harrived, hasked⟩ := step_fire hstep
    refine ⟨?_, h.handsOut hout⟩
    rw [hmatching, harrived, hasked]
    exact h.matched.addLeft connection
  | accept request =>
    obtain ⟨hmatching, hout, harrived, hasked⟩ := step_accept h.matched.oneSide hstep
    refine ⟨?_, h.handsOut hout⟩
    rw [hmatching, harrived, hasked]
    exact h.matched.addRight request
  | callback index =>
    obtain ⟨connection, request, hpair, rfl⟩ := step_callback hstep
    refine ⟨h.matched, Perm.trans ?_ h.called⟩
    obtain ⟨hindex, hget⟩ := List.getElem?_eq_some_iff.mp hpair
    have hperm : (callbackAccept firstQuestion connection request ::
        callbacksOf firstQuestion (run.running.eraseIdx index)).Perm
          (callbacksOf firstQuestion run.running) := by
      have hrest := getElem_cons_eraseIdx_perm hindex
      rw [hget] at hrest
      exact hrest.map fun (connection, request) => callbackAccept firstQuestion connection request
    show (run.called ++ [_] ++ _).Perm _
    rw [append_assoc]
    exact List.Perm.append_left _ hperm

/-- The callbacks are made in the order of the sections, as where no two calls run at once. -/
def InTurn (steps : List AcceptStep) : Prop :=
  ∀ index, .callback index ∈ steps → index = 0

theorem called_step {step : AcceptStep} (hturn : InTurn [step]) (h : Paired firstQuestion run)
    (hcalled : run.called ++ callbacksOf firstQuestion run.running =
      callbacksOf firstQuestion run.handed)
    (hstep : run.step firstQuestion step = some after) :
    after.called ++ callbacksOf firstQuestion after.running =
      callbacksOf firstQuestion after.handed := by
  have hsection (hout : HandsOut run after) :
      after.called ++ callbacksOf firstQuestion after.running =
        callbacksOf firstQuestion after.handed := by
    obtain ⟨hsame, ⟨hhanded, hrunning⟩ | ⟨⟨connection, request⟩, hhanded, hrunning⟩⟩ := hout
    · rw [hsame, hhanded, hrunning, hcalled]
    · rw [hsame, hhanded, hrunning, callbacksOf_concat, callbacksOf_concat, ← append_assoc, hcalled]
  cases step with
  | fire => exact hsection (step_fire hstep).2.1
  | accept => exact hsection (step_accept h.matched.oneSide hstep).2.1
  | callback index =>
    obtain rfl := hturn index mem_cons_self
    obtain ⟨connection, request, hpair, rfl⟩ := step_callback hstep
    rw [← List.head?_eq_getElem?] at hpair
    obtain ⟨rest, hrunning⟩ := List.head?_eq_some_iff.mp hpair
    rw [← hcalled]
    show run.called ++ [_] ++ callbacksOf firstQuestion (run.running.eraseIdx 0) = _
    rw [hrunning, append_assoc]
    rfl

theorem called_inTurn {steps : List AcceptStep} (hturn : InTurn steps)
    (h : Paired firstQuestion run)
    (hcalled : run.called ++ callbacksOf firstQuestion run.running =
      callbacksOf firstQuestion run.handed)
    (hrun : exec (AcceptRun.step firstQuestion) run steps = some after) :
    after.called ++ callbacksOf firstQuestion after.running =
      callbacksOf firstQuestion after.handed := by
  induction steps generalizing run with
  | nil => exact Option.some.inj hrun ▸ hcalled
  | cons step steps ih =>
    obtain ⟨next, hstep, hrun⟩ := exec_cons hrun
    refine ih (fun index hmem => hturn index (mem_cons_of_mem _ hmem)) (h.step hstep) ?_ hrun
    refine called_step (fun index hmem => hturn index ?_) h hcalled hstep
    rw [mem_singleton.mp hmem]
    exact mem_cons_self

theorem paired_start : Paired firstQuestion {} :=
  ⟨matched_nil, .refl _⟩

theorem paired_run {steps : List AcceptStep}
    (h : exec (AcceptRun.step firstQuestion) {} steps = some run) : Paired firstQuestion run :=
  exec_preserves (fun _ _ _ hpaired hstep => hpaired.step hstep) paired_start h

/-- After any steps of any threads at most one of the queues waits, the connection that came as number
`i` was handed to the accept that was made as number `i`, and it is called back with it once. Where
the calls do not overlap they call back in that order. -/
theorem accepts_paired (firstQuestion : Nat → List UInt8) (steps : List AcceptStep) :
    ∀ run ∈ exec (AcceptRun.step firstQuestion) {} steps,
      (run.listener.backlog = [] ∨ run.listener.acceptRequests = []) ∧
        run.handed = run.arrived.zip run.asked ∧
        run.listener.backlog = run.arrived.drop run.asked.length ∧
        run.listener.acceptRequests = run.asked.drop run.arrived.length ∧
        (run.called ++ callbacksOf firstQuestion run.running).Perm
          (callbacksOf firstQuestion run.handed) ∧
        (InTurn steps → run.called ++ callbacksOf firstQuestion run.running =
          callbacksOf firstQuestion run.handed) := by
  intro run hrun
  have hpaired := paired_run hrun
  refine ⟨hpaired.matched.oneSide, hpaired.matched.pairs_eq, hpaired.matched.lefts_eq,
    hpaired.matched.rights_eq, hpaired.called, fun hturn => ?_⟩
  exact called_inTurn hturn paired_start rfl hrun

/-- Two connections come before the first accept, which is handed the first of them. -/
theorem accepts_paired_two :
    ∃ run ∈ exec (AcceptRun.step fun _ => []) {} [.fire 7, .fire 8, .accept ⟨1, 2⟩, .callback 0],
      run.handed = [(7, ⟨1, 2⟩)] ∧ run.listener.backlog = [8] ∧ run.called = [⟨1, [], 7, 2⟩] := by
  refine ⟨_, rfl, ?_⟩
  obtain ⟨-, hhanded, hbacklog, -⟩ :=
    accepts_paired (fun _ => []) [.fire 7, .fire 8, .accept ⟨1, 2⟩, .callback 0] _ rfl
  exact ⟨hhanded, hbacklog, rfl⟩

end Bdt
