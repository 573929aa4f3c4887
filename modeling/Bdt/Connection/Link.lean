import Bdt.Connection.Receiving
import Bdt.Connection.SendStream

/-!
# Two connections and the network between them

A `Link` is a pair of connections. The network hands any package that one of them has sent to the
other, at any time and any number of times, or never; the `SYN` packages that open the session come
from elsewhere. `Link.delivered_prefix`: whatever the two users, the timers and the network do, the
bytes delivered on one side are a prefix of the bytes accepted on the other.
-/

namespace Bdt

open Base Relation List

/-! ## What an effect adds to the history -/

namespace PackageConnection

variable {env : PackageEnv} {limits : Limits} {c d peer : PackageConnection}

/-- The records that one effect can add: packages that may arrive, packages that are filled, and
what the callbacks get. -/
def MayAdd (env : PackageEnv) (limits : Limits) (c : PackageConnection) : Record → Prop
  | .receive package => limits.net c package
  | .send package => ∃ now sent fill queue, Filled env now c sent fill queue ∧ Outgoing c fill package
  | _ => True

variable {r : Record}

theorem mayAdd_callbacks (recvBuffers : List RecvQueueRecvBuffer) (data : RecvQueueRecvBuffer → List UInt8)
    (sendBuffers : List SendQueueSendBuffer)
    (hr : r ∈ (recvBuffers.map fun b => Record.recv (data b) b.userData) ++
      sendBuffers.map fun b => Record.sendComplete b b.len) : MayAdd env limits c r := by
  rcases mem_append.mp hr with hr | hr
  · obtain ⟨_, _, rfl⟩ := mem_map.mp hr
    trivial
  · obtain ⟨_, _, rfl⟩ := mem_map.mp hr
    trivial

theorem maybeCloseFinish_added (c : PackageConnection) (hr : r ∈ d.maybeCloseFinish.history) :
    r ∈ d.history ∨ MayAdd env limits c r := by
  unfold maybeCloseFinish at hr
  split at hr
  · simp only [append_assoc] at hr
    exact (mem_append.mp hr).imp_right (mayAdd_callbacks _ (fun _ => []) _)
  · exact .inl hr

theorem Effect.added (he : Effect env limits c d) (hr : r ∈ d.history) :
    r ∈ c.history ∨ MayAdd env limits c r := by
  cases he with
  | note | subState | fill | beginClose | confirm | timeout => exact .inl hr
  | transmit now sent fill queue _ hfill hout =>
    refine (mem_append.mp hr).imp_right fun hr => ?_
    obtain rfl := mem_singleton.mp hr
    exact ⟨now, sent, fill, queue, hfill, hout⟩
  | accept =>
    refine (mem_append.mp hr).imp_right fun hr => ?_
    obtain rfl := mem_singleton.mp hr
    trivial
  | receive _ hnet =>
    refine (mem_append.mp hr).imp_right fun hr => ?_
    obtain rfl := mem_singleton.mp hr
    exact hnet
  | reset hstate =>
    unfold PackageConnection.reset at hr
    rw [if_pos hstate] at hr
    have hr : _ ∨ MayAdd env limits c r := maybeCloseFinish_added c hr
    rcases hr with hr | hr
    · refine (mem_append.mp hr).imp_right fun hr => ?_
      obtain rfl := mem_singleton.mp hr
      trivial
    · exact .inr hr
  | closed =>
    have hr : _ ∨ MayAdd env limits c r := maybeCloseFinish_added c hr
    exact hr
  | complete => exact (mem_append.mp hr).imp_right fun hr =>
    mayAdd_callbacks [] (fun _ => []) _ hr
  | write =>
    unfold writePackage at hr
    split at hr <;> split at hr <;> exact .inl hr
  | deliver =>
    unfold PackageConnection.deliver notifyRecvReadyBuffers at hr
    simp only at hr
    split at hr
    · exact .inl hr
    split at hr
    · exact .inl hr
    · refine (mem_append.mp hr).imp_right fun hr => ?_
      obtain ⟨_, _, rfl⟩ := mem_map.mp hr
      trivial
  | addRecv =>
    unfold recv at hr
    split at hr <;> exact .inl hr

/-! ## What is received was sent -/

/-- Every package received is one that the peer has sent. -/
def Heard (c peer : PackageConnection) : Prop :=
  ∀ package, .receive package ∈ c.history → .send package ∈ peer.history

/-- An event the network allows: a package without `SYN` was sent by the peer. -/
def Carried (peer : PackageConnection) (event : ConnectionEvent) : Prop :=
  ∀ package, event = .push package → package.hasFlag SessionDataFlag.SYN = false →
    .send package ∈ peer.history

theorem Heard.mono (h : Heard c peer) {later : PackageConnection}
    (hhist : peer.history <+: later.history) : Heard c later :=
  fun package hmem => hhist.subset (h package hmem)

theorem Heard.step (h : Heard c peer) {event : ConnectionEvent} (hstep : Step env c event d)
    (hnet : Carried peer event) : Heard d peer := by
  obtain ⟨fuel, now, hstep⟩ := hstep
  have heffects : ReflTransGen
      (Effect env { net := fun _ package => .send package ∈ peer.history }) c d :=
    handle_effects hstep hnet (fun _ _ => trivial) fun _ _ => trivial
  refine reflTransGen_preserves (fun e => Heard e peer) (fun s t hs ht package hmem => ?_) heffects h
  exact (Effect.added ht hmem).elim (hs package) id

/-- The bytes delivered were all accepted by the peer, in the same order. -/
theorem Heard.delivered_sub (h : Heard c peer) (hreceiving : c.Receiving)
    (hsending : peer.SendStream) : delivered c.history <+: accepted peer.history := by
  refine Slice.prefix fun i hi => ?_
  obtain ⟨package, hreceived, hle, hbyte⟩ := hreceiving.bytes i _ (List.getElem?_eq_getElem hi)
  obtain ⟨hstart, hslice⟩ := hsending.sends package (h package hreceived)
  obtain ⟨hlt, _⟩ := List.getElem?_eq_some_iff.mp hbyte
  have hsame := hslice _ hlt
  rw [hbyte] at hsame
  rw [List.getElem?_eq_getElem hi, ← hsame]
  congr 1
  omega

end PackageConnection

/-! ## The link -/

/-- The two ends of a link. -/
inductive Side where
  | left
  | right
  deriving DecidableEq, Repr

def Side.other : Side → Side
  | .left => .right
  | .right => .left

/-- Two connections that talk to each other. -/
structure Link where
  left : PackageConnection
  right : PackageConnection
  deriving DecidableEq, Repr

namespace Link

variable {env : Side → PackageEnv} {link next : Link}

/-- The connection of one side. -/
def on (link : Link) : Side → PackageConnection
  | .left => link.left
  | .right => link.right

/-- The connection of one side is replaced. -/
def set (link : Link) (c : PackageConnection) : Side → Link
  | .left => { link with left := c }
  | .right => { link with right := c }

@[simp] theorem set_on (link : Link) (c : PackageConnection) (side : Side) :
    (link.set c side).on side = c := by
  cases side <;> rfl

@[simp] theorem set_on_other (link : Link) (c : PackageConnection) (side : Side) :
    (link.set c side).on side.other = link.on side.other := by
  cases side <;> rfl

@[simp] theorem other_other (side : Side) : side.other.other = side := by
  cases side <;> rfl

theorem eq_or_other (side other : Side) : other = side ∨ other = side.other := by
  cases side <;> cases other <;> simp [Side.other]

def create (env : Side → PackageEnv) : Link where
  left := .create (env .left)
  right := .create (env .right)

theorem create_on (env : Side → PackageEnv) (side : Side) :
    (create env).on side = .create (env side) := by
  cases side <;> rfl

/-- An event of one side. -/
def Step (env : Side → PackageEnv) (link : Link) (event : Side × ConnectionEvent) (next : Link) :
    Prop :=
  ∃ c, PackageConnection.Step (env event.1) (link.on event.1) event.2 c ∧
    PackageConnection.Carried (link.on event.1.other) event.2 ∧ next = link.set c event.1

/-- The links that are reached from two new connections. -/
def Reachable (env : Side → PackageEnv) : Link → Prop :=
  Reach (fun link => link = create env) (Step env)

/-- Each side of a reachable link is a reachable connection that has heard only its peer. -/
theorem Reachable.side (h : Reachable env link) (side : Side) :
    PackageConnection.Reachable (env side) (link.on side) ∧
      PackageConnection.Heard (link.on side) (link.on side.other) := by
  induction h generalizing side with
  | start hs =>
    rw [hs, create_on]
    refine ⟨.start rfl, fun package hmem => ?_⟩
    cases hmem
  | @next s t event _ hstep ih =>
    obtain ⟨c, hstep, hcarried, rfl⟩ := hstep
    rcases eq_or_other event.1 side with rfl | rfl
    · rw [set_on, set_on_other]
      exact ⟨.next (ih event.1).1 hstep, (ih event.1).2.step hstep hcarried⟩
    -- the other side stays as it is, and its peer has only sent more
    rw [set_on_other, other_other, set_on]
    have hmore := PackageConnection.effects_history hstep.effects
    have hold := ih event.1.other
    rw [other_other] at hold
    exact ⟨hold.1, hold.2.mono hmore⟩

/-- End-to-end stream safety. -/
theorem delivered_prefix (h : Reachable env link) (side : Side) :
    delivered (link.on side.other).history <+: accepted (link.on side).history := by
  obtain ⟨hreach, hheard⟩ := h.side side.other
  rw [other_other] at hheard
  exact hheard.delivered_sub hreach.receiving (h.side side).1.sendStream

/-- The test that the network allows an event. -/
def carried (link : Link) (side : Side) : ConnectionEvent → Bool
  | .push package =>
    package.hasFlag SessionDataFlag.SYN || (link.on side.other).history.contains (.send package)
  | _ => true

/-- The handler of an event, when the network allows the event. -/
def handle (env : Side → PackageEnv) (fuel : Nat) (link : Link)
    (event : Nat × Side × ConnectionEvent) : Option Link :=
  if link.carried event.2.1 event.2.2 then
    ((link.on event.2.1).handle (env event.2.1) fuel event.1 event.2.2).map (link.set · event.2.1)
  else none

/-- Apply a sequence of events, each with its time and side. -/
def run (env : Side → PackageEnv) (fuel : Nat) (link : Link)
    (events : List (Nat × Side × ConnectionEvent)) : Option Link :=
  exec (handle env fuel) link events

theorem handle_step {fuel : Nat} {event : Nat × Side × ConnectionEvent}
    (h : link.handle env fuel event = some next) : Step env link event.2 next := by
  unfold handle at h
  split at h
  case isFalse => cases h
  case isTrue hcarried =>
  obtain ⟨c, hc, rfl⟩ := Option.map_eq_some_iff.mp h
  refine ⟨c, ⟨fuel, event.1, hc⟩, fun package hpush hsyn => ?_, rfl⟩
  rw [hpush] at hcarried
  simpa [carried, hsyn] using hcarried

theorem Reachable.run {fuel : Nat} {events : List (Nat × Side × ConnectionEvent)}
    (h : Reachable env link) (hrun : link.run env fuel events = some next) : Reachable env next :=
  exec_preserves (fun _ _ _ hs hn => .next hs (handle_step hn)) h hrun

/-- A link whose connections have the configuration of `Stack.c`. -/
def stackLink : Side → PackageEnv := fun _ => PackageConnection.stackEnv

/-- A package as one of these connections sends it. -/
def stackPackage (fin finAck : Bool) (streamPos : Nat) (payload : Option (List UInt8)) :
    Bdt_SessionDataPackage where
  cmdflags := PackageConnection.fillFlags fin finAck
  sessionId := 1
  toSessionId := 1
  streamPos := streamPos
  ackStreamPos := 1
  payload := payload

/-- The user of the left side sends five bytes, and the right side has a buffer for three: the
package arrives twice, and three bytes are delivered. -/
theorem delivered_prefix_short : ∃ link, Reachable stackLink link ∧
    delivered (link.on .right).history = [1, 2, 3] ∧
    delivered (link.on .right).history <+: accepted (link.on .left).history := by
  obtain ⟨link, hrun, hlink⟩ := exists_of_any
    (o := (create stackLink).run stackLink 10
      [(0, .left, .send [1, 2, 3, 4, 5] 0), (0, .right, .recv 0 [0, 0, 0] 0),
        (0, .right, .push (stackPackage false false 1 (some [1, 2, 3, 4, 5]))),
        (0, .right, .push (stackPackage false false 1 (some [1, 2, 3, 4, 5])))])
    (p := fun link => delivered link.right.history = [1, 2, 3]) (by decide +kernel)
  have hreach : Reachable stackLink link := Reachable.run (.start rfl) hrun
  exact ⟨link, hreach, of_decide_eq_true hlink, delivered_prefix hreach .left⟩

end Link

end Bdt
