import Bdt.Connection.Effects
import Bdt.Connection.SendInvariant

/-!
# The invariant of the connection

`PackageConnection.Wf` is what every handler keeps of the sending side: the invariants of the send
queue and of the congestion control, and the end position that a close has noted. `Step` is one event
with its handler; a handler that does not return, or that runs into something undefined, has no
successor.
-/

namespace Bdt

open Base Relation

namespace PackageConnection

/-- The sending side of a connection is consistent. -/
structure Wf (env : PackageEnv) (c : PackageConnection) : Prop where
  queue : c.sendQueue.Wf
  mtu : c.sendQueue.mtu = env.config.mtu
  cc : c.cc.Wf env.config
  closing : c.state = .closing → c.selfCloseStreamPos = c.sendQueue.sendingBuffers.streamPos

theorem wf_create (env : PackageEnv) : (create env).Wf env where
  queue := SendQueue.wf_create _ _
  mtu := rfl
  cc := LedbatCc.wf_new env.config
  closing := by simp [create]

variable {env : PackageEnv} {limits : Limits} {c d : PackageConnection}

section

variable (h : c.Wf env)
include h

/-- Room for a whole mtu keeps the counter of the bytes in flight within its variable. -/
theorem Wf.windowOpen (hroom : c.room = env.config.mtu) :
    c.sendQueue.WindowOpen := by
  have hmtu := h.mtu
  have hpos := env.config.mtu_pos
  have hlt := h.cc.lt
  unfold room LedbatCc.trySendPayload at hroom
  unfold SendQueue.WindowOpen
  split at hroom <;> omega

theorem Wf.filled {now : Nat} {sent : Bool} {fill : Fill} {queue : SendQueue}
    (hfill : Filled env now c sent fill queue) :
    queue.Wf ∧ queue.mtu = c.sendQueue.mtu ∧
      queue.sendingBuffers.streamPos = c.sendQueue.sendingBuffers.streamPos := by
  obtain ⟨hpos, _, hmtu⟩ := hfill.fields
  refine ⟨?_, hmtu, hpos⟩
  rcases hfill with ⟨hroom, hfill⟩ | ⟨_, _, _, rfl⟩
  · exact h.queue.fillPayload (h.windowOpen hroom) hfill
  · exact h.queue

theorem Wf.maybeCloseFinish : c.maybeCloseFinish.Wf env := by
  unfold PackageConnection.maybeCloseFinish
  split
  · exact ⟨h.queue.popAllBuffers, h.mtu, h.cc, fun hstate => by cases hstate⟩
  · exact h

theorem Wf.confirm (ackStreamPos : Nat) (sackArray : Option (List BdtStreamRange)) :
    Wf env { c with sendQueue := (c.sendQueue.confirmRange ackStreamPos sackArray).1 } := by
  have hfields : (c.sendQueue.confirmRange ackStreamPos sackArray).1.mtu = c.sendQueue.mtu ∧
      (c.sendQueue.confirmRange ackStreamPos sackArray).1.sendingBuffers =
        c.sendQueue.sendingBuffers := by
    unfold SendQueue.confirmRange
    split <;> exact ⟨rfl, rfl⟩
  refine ⟨h.queue.confirmRange _ _, hfields.1.trans h.mtu, h.cc, fun hstate => ?_⟩
  rw [hfields.2]
  exact h.closing hstate

theorem Wf.effect (he : Effect env limits c d) : d.Wf env := by
  cases he with
  | note _ _ _ _ _ _ _ _ hcc => exact ⟨h.queue, h.mtu, hcc _ h.cc, h.closing⟩
  | subState => exact ⟨h.queue, h.mtu, h.cc, h.closing⟩
  | fill _ _ _ _ hfill | transmit _ _ _ _ _ hfill =>
    obtain ⟨hqueue, hmtu, hpos⟩ := h.filled hfill
    exact ⟨hqueue, hmtu.trans h.mtu, h.cc, fun hstate => (h.closing hstate).trans hpos.symm⟩
  | accept _ _ queue hstate hadd =>
    have hmtu : queue.mtu = c.sendQueue.mtu := by
      unfold SendQueue.addBuffer at hadd
      split at hadd <;> cases hadd
      rfl
    exact ⟨h.queue.addBuffer hadd, hmtu.trans h.mtu, h.cc,
      fun hclosing => by cases hstate.symm.trans hclosing⟩
  | beginClose => exact ⟨h.queue, h.mtu, h.cc, fun _ => rfl⟩
  | reset hstate =>
    unfold PackageConnection.reset PackageConnection.maybeCloseFinish
    rw [if_pos hstate, if_pos (by simp)]
    exact ⟨h.queue.popAllBuffers, h.mtu, h.cc, fun hclosing => by cases hclosing⟩
  | closed => exact Wf.maybeCloseFinish ⟨h.queue, h.mtu, h.cc, h.closing⟩
  | receive => exact ⟨h.queue, h.mtu, h.cc, h.closing⟩
  | confirm => exact h.confirm _ _
  | complete => exact ⟨h.queue.popCompleteBuffers, h.mtu, h.cc, h.closing⟩
  | write =>
    unfold PackageConnection.writePackage
    split <;> split <;> exact ⟨h.queue, h.mtu, h.cc, h.closing⟩
  | deliver =>
    unfold PackageConnection.deliver PackageConnection.notifyRecvReadyBuffers
    simp only
    split
    · exact ⟨h.queue, h.mtu, h.cc, h.closing⟩
    · split <;> exact ⟨h.queue, h.mtu, h.cc, h.closing⟩
  | timeout => exact ⟨h.queue.markRangeTimeout _ _ _, h.mtu, h.cc, h.closing⟩
  | addRecv =>
    unfold PackageConnection.recv
    split <;> exact ⟨h.queue, h.mtu, h.cc, h.closing⟩

theorem Wf.effects (he : ReflTransGen (Effect env limits) c d) : d.Wf env :=
  reflTransGen_preserves (fun e => e.Wf env) (fun _ _ hs ht => hs.effect ht) he h

end

/-! ## Runs -/

/-- An event and its handler, with some bound on the send drive and at some time. -/
def Step (env : PackageEnv) (c : PackageConnection) (event : ConnectionEvent)
    (d : PackageConnection) : Prop :=
  ∃ fuel now, c.handle env fuel now event = some d

/-- The states that a connection reaches between its handlers. -/
def Reachable (env : PackageEnv) : PackageConnection → Prop :=
  Reach (fun c => c = create env) (Step env)

/-- Effects without assumptions about the environment. -/
abbrev FreeEffect (env : PackageEnv) : PackageConnection → PackageConnection → Prop :=
  Effect env {}

theorem Step.effects {event : ConnectionEvent} (h : Step env c event d) :
    ReflTransGen (FreeEffect env) c d := by
  obtain ⟨fuel, now, h⟩ := h
  exact handle_effects h (fun _ _ _ => trivial) (fun _ _ => trivial) (fun _ _ => trivial)

theorem Reachable.wf (h : Reachable env c) : c.Wf env :=
  Reach.invariant (fun _ hs => hs ▸ wf_create env)
    (fun _ _ _ _ hs ht => hs.effects (Step.effects ht)) h

/-- Apply a sequence of events, each with its time. -/
def run (env : PackageEnv) (fuel : Nat) (c : PackageConnection)
    (events : List (Nat × ConnectionEvent)) : Option PackageConnection :=
  exec (fun c event => c.handle env fuel event.1 event.2) c events

theorem Reachable.run {fuel : Nat} {events : List (Nat × ConnectionEvent)} (h : Reachable env c)
    (hrun : c.run env fuel events = some d) : Reachable env d :=
  exec_preserves (fun _ event _ hs hn => .next hs ⟨fuel, event.1, hn⟩) h hrun

/-- A connection with the configuration that `Stack.c` gives it. -/
def stackEnv : PackageEnv where
  config := pkgConConfig
  remoteId := 1
  round := id

end PackageConnection

end Bdt
