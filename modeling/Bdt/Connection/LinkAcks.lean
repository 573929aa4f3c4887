import Bdt.Connection.CloseDelivery
import Bdt.Connection.CloseSafety
import Bdt.Connection.SendCompletion

/-!
# What an acknowledgement is worth

The two sides of a link count positions of the same stream: those that the sender takes as
acknowledged, and those that the receiver has. `Link.inStep_run`: in any run what is acknowledged has
arrived, and what has arrived is what the sender's user handed in. `Link.completes_run`: as long as a
connection is not closed, its successful send callbacks are about bytes that the peer has.
-/

namespace Bdt

open Base Relation List

namespace PackageConnection

variable {env : PackageEnv} {limits : Limits} {c d peer : PackageConnection} {pos : Nat}

/-! ## What one effect does to the positions -/

/-- The largest ack is that of a package received. Until the close, a send callback is that of a
buffer at or before it. The close leaves the ack position as it is. -/
structure Moves (c d : PackageConnection) : Prop where
  acked : d.sendQueue.sendContext.ackStreamPos = c.sendQueue.sendContext.ackStreamPos ∨
    ∃ package, .receive package ∈ c.history ∧ d.sendQueue.sendContext.ackStreamPos =
      max c.sendQueue.sendContext.ackStreamPos package.ackStreamPos
  completed : d.state ≠ .close → ∀ b length, .sendComplete b length ∈ d.history →
    .sendComplete b length ∈ c.history ∨ length = b.len ∧
      b ∈ c.sendQueue.sendingBuffers.buffers ∧
      b.endStreamPos ≤ c.sendQueue.sendContext.ackStreamPos
  close : d.state = .close → c.state = .close ∨
    d.recvQueue.recvBlock.ackStreamPos = c.recvQueue.recvBlock.ackStreamPos

theorem moves_frame
    (hack : d.sendQueue.sendContext.ackStreamPos = c.sendQueue.sendContext.ackStreamPos)
    (hstate : d.state = c.state)
    (hhist : ∀ b length, .sendComplete b length ∈ d.history → .sendComplete b length ∈ c.history) :
    Moves c d :=
  ⟨.inl hack, fun _ b length hmem => .inl (hhist b length hmem), fun h => .inl (hstate ▸ h)⟩

/-- `PackageConnectionMaybeCloseFinish`, from a state with the same positions. -/
theorem moves_maybeCloseFinish
    (hack : d.sendQueue.sendContext.ackStreamPos = c.sendQueue.sendContext.ackStreamPos)
    (hrecv : d.recvQueue.recvBlock.ackStreamPos = c.recvQueue.recvBlock.ackStreamPos)
    (hhist : ∀ b length, .sendComplete b length ∈ d.history → .sendComplete b length ∈ c.history) :
    Moves c d.maybeCloseFinish := by
  unfold maybeCloseFinish
  split
  · exact ⟨.inl hack, fun hopen => absurd rfl hopen, fun _ => .inr hrecv⟩
  · exact ⟨.inl hack, fun _ b length hmem => .inl (hhist b length hmem), fun _ => .inr hrecv⟩

theorem Effect.moves (he : Effect env limits c d) (hwf : c.Wf env) : Moves c d := by
  cases he with
  | note | subState => exact moves_frame rfl rfl fun _ _ => id
  | fill _ _ _ _ hfill => exact moves_frame hfill.fields.2.1 rfl fun _ _ => id
  | transmit _ _ _ _ _ hfill => exact moves_frame hfill.fields.2.1 rfl (by simp)
  | accept _ _ _ _ hadd =>
    unfold SendQueue.addBuffer at hadd
    split at hadd <;> cases hadd
    exact moves_frame rfl rfl (by simp)
  | beginClose => exact ⟨.inl rfl, fun _ _ _ => .inl, fun _ => .inr rfl⟩
  | reset hstate =>
    unfold PackageConnection.reset
    rw [if_pos hstate]
    exact moves_maybeCloseFinish rfl rfl (by simp)
  | closed => exact moves_maybeCloseFinish rfl rfl fun _ _ => id
  | receive => exact moves_frame rfl rfl (by simp)
  | confirm package hrec =>
    unfold SendQueue.confirmRange
    split
    · exact moves_frame rfl rfl fun _ _ => id
    · obtain ⟨-, hack, -⟩ := hwf.queue.counted.confirm hwf.queue.ordered package.ackStreamPos
        package.sackArray
      exact ⟨.inr ⟨package, hrec, hack⟩, fun _ _ _ => .inl, .inl⟩
  | complete =>
    obtain ⟨popped, stay, hpop, _, hbuffers, hle, _⟩ := SendingBuffers.popLoop_cases
      c.sendQueue.sendContext.ackStreamPos c.sendQueue.sendingBuffers.buffers
      c.sendQueue.sendingBuffers.curr
    refine ⟨.inl rfl, fun _ b length hmem => ?_, .inl⟩
    refine (mem_append.mp hmem).imp_right fun hmem => ?_
    obtain ⟨other, hb, heq⟩ := mem_map.mp hmem
    cases heq
    have hb : b ∈ popped := hpop ▸ hb
    exact ⟨rfl, hbuffers ▸ mem_append_left stay hb, hle b hb⟩
  | write package =>
    unfold writePackage
    split <;> split <;> exact moves_frame rfl rfl fun _ _ => id
  | deliver force =>
    unfold PackageConnection.deliver notifyRecvReadyBuffers
    simp only
    split
    · exact moves_frame rfl rfl fun _ _ => id
    split
    · exact moves_frame rfl rfl fun _ _ => id
    · exact moves_frame rfl rfl (by simp [recvRecord])
  | timeout rto now =>
    have hfields := SendContext.markRangeTimeout_fields c.sendQueue.sendContext false rto now
    exact moves_frame hfields.1 rfl fun _ _ => id
  | addRecv =>
    unfold recv
    split <;> exact moves_frame rfl rfl fun _ _ => id

/-! ## What the positions say -/

/-- What counts as received has arrived, also what is still in a buffer. -/
theorem Receiving.arrived (h : c.Receiving) (hopen : c.state ≠ .close)
    (hle : PACKAGE_CONNECTION_INIT_STREAM_POS ≤ pos)
    (hlt : pos < c.recvQueue.recvBlock.ackStreamPos) : ∃ x, Arrived c.history pos x := by
  have hcount := h.count
  by_cases hread : pos < c.recvQueue.recvStream.readStreamPos
  · have hbyte := h.bytes (pos - PACKAGE_CONNECTION_INIT_STREAM_POS) _
      (List.getElem?_eq_getElem (by omega))
    rw [Nat.add_sub_cancel' hle] at hbyte
    exact ⟨_, hbyte⟩
  have hlaid := (h.queue hopen).laid
  generalize c.recvQueue.recvStream.readStreamPos = start at hlaid hread
  generalize c.recvQueue.recvStream.buffers = buffers at hlaid
  induction buffers generalizing start with
  | nil => exact absurd (.inl hlt) (hlaid pos (Nat.not_lt.mp hread))
  | cons b rest ih =>
    obtain ⟨-, -, hbytes, hrest⟩ := hlaid
    by_cases hin : pos < start + b.len
    · obtain ⟨-, x, -, harrived⟩ := hbytes pos (Nat.not_lt.mp hread) hin (.inl hlt)
      exact ⟨x, harrived⟩
    · exact ih _ hin hrest

/-- The positions of a connection and the packages behind them. -/
structure Acks (c : PackageConnection) : Prop where
  arrived : ∀ pos, PACKAGE_CONNECTION_INIT_STREAM_POS ≤ pos →
    pos < c.recvQueue.recvBlock.ackStreamPos → ∃ x, Arrived c.history pos x
  sent : ∀ package, .send package ∈ c.history →
    package.ackStreamPos ≤ c.recvQueue.recvBlock.ackStreamPos
  acked : c.sendQueue.sendContext.ackStreamPos ≤ PACKAGE_CONNECTION_INIT_STREAM_POS ∨
    AckedTo c.history c.sendQueue.sendContext.ackStreamPos
  completed : c.state ≠ .close → ∀ b length, .sendComplete b length ∈ c.history →
    length = b.len ∧ PACKAGE_CONNECTION_INIT_STREAM_POS ≤ b.startStreamPos ∧
      b.startStreamPos + b.len ≤ c.sendQueue.sendContext.ackStreamPos ∧
      Slice (accepted c.history) (b.startStreamPos - PACKAGE_CONNECTION_INIT_STREAM_POS) b.data

theorem acks_create (env : PackageEnv) : (create env).Acks where
  arrived _ hle hlt := absurd hlt (Nat.not_lt.mpr hle)
  sent := by simp [create]
  acked := .inl (Nat.le_refl _)
  completed := by simp [create]

theorem Acks.effect (h : c.Acks) (hwf : c.Wf env) (hreceiving : c.Receiving)
    (hstream : c.SendStream) (he : Effect env limits c d) : d.Acks := by
  obtain ⟨more, hhist⟩ := Effect.history he
  obtain ⟨hacked, hcompleted, hclose⟩ := he.moves hwf
  have hold := h.acked.imp_right (·.append more)
  constructor
  case arrived =>
    intro pos hpos hlt
    by_cases hclosed : d.state = .close
    · have hack := (hclose hclosed).elim (fun hc => (he.settled hreceiving hc).ack) id
      obtain ⟨x, hx⟩ := h.arrived pos hpos (hack ▸ hlt)
      exact ⟨x, hhist ▸ hx.append more⟩
    · exact (hreceiving.effect he).arrived hclosed hpos hlt
  case sent =>
    intro package hmem
    refine Nat.le_trans ?_ (hreceiving.ack_le he)
    obtain hmem | ⟨_, _, _, _, -, hout⟩ := he.added hmem
    · exact h.sent package hmem
    · exact hout.ackStreamPos.le
  case acked =>
    rw [← hhist]
    obtain hsame | ⟨package, hrec, hmax⟩ := hacked
    · exact hsame ▸ hold
    obtain hle | hle := le_total package.ackStreamPos c.sendQueue.sendContext.ackStreamPos
    · exact (hmax.trans (max_eq_left hle)) ▸ hold
    · rw [hmax, max_eq_right hle]
      exact .inr (AckedTo.append ⟨package, hrec, Nat.le_refl _⟩ more)
  case completed =>
    have hle : c.sendQueue.sendContext.ackStreamPos ≤ d.sendQueue.sendContext.ackStreamPos :=
      hacked.elim (·.ge) fun ⟨_, _, hmax⟩ => hmax ▸ Nat.le_max_left _ _
    intro hopen b length hmem
    rw [← hhist, accepted_append]
    obtain hmem | ⟨hlen, hb, hend⟩ := hcompleted hopen b length hmem
    · have hbefore : c.state ≠ .close := fun hc => hopen (he.settled hreceiving hc).closed
      obtain ⟨hlen, hstart, hend, hslice⟩ := h.completed hbefore b length hmem
      exact ⟨hlen, hstart, Nat.le_trans hend hle, hslice.mono _⟩
    · obtain ⟨hstart, hstop, hslice⟩ := hstream.queue.buffers b hb
      exact ⟨hlen, hstart, Nat.le_trans (hstop ▸ hend) hle, hslice.mono _⟩

theorem Reachable.acks (h : Reachable env c) : c.Acks :=
  Reach.invariant (fun _ hs => hs ▸ acks_create env)
    (fun _ _ _ hreach hs ht => (reflTransGen_preserves
      (fun e => e.Wf env ∧ e.Receiving ∧ e.SendStream ∧ e.Acks)
      (fun _ _ hi he => ⟨hi.1.effect he, hi.2.1.effect he, hi.2.2.1.effect hi.1 he,
        hi.2.2.2.effect hi.1 hi.2.1 hi.2.2.1 he⟩) (Step.effects ht)
      ⟨Reachable.wf hreach, Reachable.receiving hreach, Reachable.sendStream hreach, hs⟩).2.2.2) h

/-- Whatever packages arrive, both queues and both streams stay consistent. -/
theorem consistent_run (env : PackageEnv) (fuel : Nat) (events : List (Nat × ConnectionEvent)) :
    Throughout (fun c event => c.handle env fuel event.1 event.2)
      (fun c => c.Wf env ∧ c.Receiving ∧ c.SendStream) (create env) events := by
  have hstart : Reachable env (create env) := .start rfl
  exact throughout_of_inv hstart (fun _ h => ⟨h.wf, h.receiving, h.sendStream⟩)
    fun _ event _ hs hn => .next hs ⟨fuel, event.1, hn⟩

/-- A byte that arrived is the one that the peer's user handed in. -/
theorem Heard.accepted_byte (h : Heard c peer) (hsending : peer.SendStream) {x : UInt8}
    (harrived : Arrived c.history pos x) :
    (accepted peer.history)[pos - PACKAGE_CONNECTION_INIT_STREAM_POS]? = some x := by
  obtain ⟨package, hmem, hfrom, hbyte⟩ := harrived
  obtain ⟨hstart, hslice⟩ := hsending.sends package (h package hmem)
  obtain ⟨hin, -⟩ := List.getElem?_eq_some_iff.mp hbyte
  rw [← hbyte, ← hslice _ hin]
  congr 1
  omega

end PackageConnection

/-! ## Both sides -/

namespace Link

variable {env : Side → PackageEnv} {link : Link} {side : Side}

/-- What one side takes as acknowledged the other one has, and that is what was handed in. -/
structure InStep (link : Link) (side : Side) : Prop where
  acked : (link.on side).sendQueue.sendContext.ackStreamPos ≤
    (link.on side.other).recvQueue.recvBlock.ackStreamPos
  arrived : ∀ pos, PACKAGE_CONNECTION_INIT_STREAM_POS ≤ pos →
    pos < (link.on side.other).recvQueue.recvBlock.ackStreamPos →
    ∃ x, Arrived (link.on side.other).history pos x ∧
      (accepted (link.on side).history)[pos - PACKAGE_CONNECTION_INIT_STREAM_POS]? = some x

theorem Reachable.inStep (h : Reachable env link) (side : Side) : link.InStep side := by
  obtain ⟨hreach, hheard⟩ := h.side side
  obtain ⟨hother, hback⟩ := h.side side.other
  rw [other_other] at hback
  constructor
  · obtain hnone | ⟨package, hmem, hle⟩ := hreach.acks.acked
    · have hcount := hother.receiving.count
      have hread := hother.receiving.read_le
      omega
    · exact Nat.le_trans hle (hother.acks.sent package (hheard package hmem))
  · intro pos hle hlt
    obtain ⟨x, hx⟩ := hother.acks.arrived pos hle hlt
    exact ⟨x, hx, hback.accepted_byte hreach.sendStream hx⟩

/-- Whoever is told that his buffer is sent, while the connection is not closed, is told the whole
length, and the peer has every byte. -/
def Completes (link : Link) (side : Side) : Prop :=
  (link.on side).state ≠ .close → ∀ b length, .sendComplete b length ∈ (link.on side).history →
    length = b.len ∧ ∀ i x, b.data[i]? = some x →
      Arrived (link.on side.other).history (b.startStreamPos + i) x

theorem Reachable.completes (h : Reachable env link) (side : Side) : link.Completes side := by
  intro hopen b length hmem
  obtain ⟨hlen, hstart, hend, hslice⟩ := (h.side side).1.acks.completed hopen b length hmem
  refine ⟨hlen, fun i x hx => ?_⟩
  have hi : i < b.len := (List.getElem?_eq_some_iff.mp hx).1
  obtain ⟨hacked, harrived⟩ := h.inStep side
  obtain ⟨y, hy, heq⟩ := harrived (b.startStreamPos + i) (by omega) (by omega)
  rw [Nat.sub_add_comm hstart, hslice i hi, hx] at heq
  exact Option.some.inj heq ▸ hy

theorem reachable_create (env : Side → PackageEnv) : Reachable env (create env) :=
  .start rfl

/-- In every state of every run what was acknowledged to a side has arrived at the other one. -/
theorem inStep_run (env : Side → PackageEnv) (fuel : Nat)
    (events : List (Nat × Side × ConnectionEvent)) :
    Throughout (handle env fuel) (fun link => ∀ side, link.InStep side) (create env) events :=
  throughout_of_inv (reachable_create env) (fun _ h => h.inStep) fun _ _ _ hs hn =>
    .next hs (handle_step hn)

/-- In every state of every run a buffer that was reported as sent has arrived with all of its bytes. -/
theorem completes_run (env : Side → PackageEnv) (fuel : Nat)
    (events : List (Nat × Side × ConnectionEvent)) :
    Throughout (handle env fuel) (fun link => ∀ side, link.Completes side) (create env) events :=
  throughout_of_inv (reachable_create env) (fun _ h => h.completes) fun _ _ _ hs hn =>
    .next hs (handle_step hn)

end Link

end Bdt
