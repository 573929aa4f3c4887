import Bdt.Base.Slice
import Bdt.Connection.Invariant

/-!
# The bytes that are sent

`accepted history` are the bytes that the user has given to `PackageConnectionSend`; the first of them
has the stream position `PACKAGE_CONNECTION_INIT_STREAM_POS`. Every buffer, every block and every
package that was sent holds the bytes of that stream at its own position
(`PackageConnection.SendStream`), however often and in whatever order blocks are lost and sent again.
-/

namespace Bdt

open Base Relation List

/-! ## Histories -/

/-- The bytes that the user gave to `PackageConnectionSend`. -/
def accepted (history : List Record) : List UInt8 :=
  history.flatMap fun
    | .accept data _ => data
    | _ => []

/-- A record that adds to the stream or to the packages sent. -/
def Record.outgoing : Record → Bool
  | .accept _ _ => true
  | .send _ => true
  | _ => false

theorem accepted_append (history more : List Record) :
    accepted (history ++ more) = accepted history ++ accepted more :=
  flatMap_append

theorem accepted_quiet (history : List Record) {more : List Record}
    (h : ∀ r ∈ more, r.outgoing = false) : accepted (history ++ more) = accepted history := by
  rw [accepted_append]
  refine (append_right_eq_self).mpr (flatMap_eq_nil_iff.mpr ?_)
  intro r hr
  have hquiet := h r hr
  cases r <;> first | rfl | cases hquiet

theorem send_mem_quiet {history more : List Record} (h : ∀ r ∈ more, r.outgoing = false)
    (package : Bdt_SessionDataPackage) :
    .send package ∈ history ++ more ↔ .send package ∈ history := by
  rw [mem_append]
  refine or_iff_left ?_
  intro hmem
  cases h _ hmem

/-! ## The send queue and the stream -/

/-- The buffers and the blocks of a queue hold the bytes of `whole` at their positions. -/
structure QueueStream (whole : List UInt8) (queue : SendQueue) : Prop where
  stop : queue.sendingBuffers.streamPos = PACKAGE_CONNECTION_INIT_STREAM_POS + whole.length
  start : PACKAGE_CONNECTION_INIT_STREAM_POS ≤ queue.sendContext.streamPos
  buffers : ∀ b ∈ queue.sendingBuffers.buffers,
    PACKAGE_CONNECTION_INIT_STREAM_POS ≤ b.startStreamPos ∧
      b.endStreamPos = b.startStreamPos + b.len ∧
      Slice whole (b.startStreamPos - PACKAGE_CONNECTION_INIT_STREAM_POS) b.data
  nonempty : ∀ b ∈ queue.sendingBuffers.buffers, b.data ≠ []
  blocks : ∀ b ∈ queue.sendContext.blocks,
    PACKAGE_CONNECTION_INIT_STREAM_POS ≤ b.startStreamPos ∧ b.len = b.data.length ∧
      Slice whole (b.startStreamPos - PACKAGE_CONNECTION_INIT_STREAM_POS) b.data

namespace QueueStream

variable {whole : List UInt8} {queue next : SendQueue}

theorem create (config : BdtPackageConnectionConfig) :
    QueueStream [] (SendQueue.create PACKAGE_CONNECTION_INIT_STREAM_POS config) where
  stop := rfl
  start := Nat.le_refl _
  buffers := by simp [SendQueue.create]
  nonempty := by simp [SendQueue.create]
  blocks := by simp [SendQueue.create, SendContext.blocks]

theorem addBuffer (h : QueueStream whole queue) {data : List UInt8} {userData : Nat}
    (hadd : queue.addBuffer data userData = some next) : QueueStream (whole ++ data) next := by
  unfold SendQueue.addBuffer at hadd
  split at hadd
  · cases hadd
  case isFalse hdata =>
  cases hadd
  have hstop := h.stop
  refine ⟨?_, h.start, ?_, ?_, ?_⟩
  · show queue.sendingBuffers.streamPos + data.length = _
    rw [length_append]
    omega
  · intro b hb
    rcases mem_concat.mp hb with hb | rfl
    · obtain ⟨hle, hend, hslice⟩ := h.buffers b hb
      exact ⟨hle, hend, hslice.mono data⟩
    refine ⟨?_, rfl, ?_⟩
    · show _ ≤ queue.sendingBuffers.streamPos
      omega
    · show Slice _ (queue.sendingBuffers.streamPos - _) data
      rw [hstop, Nat.add_sub_cancel_left]
      exact Slice.append_right whole data
  · intro b hb
    rcases mem_concat.mp hb with hb | hb
    · exact h.nonempty b hb
    · rw [hb]
      exact hdata
  · intro b hb
    obtain ⟨hle, hlen, hslice⟩ := h.blocks b hb
    exact ⟨hle, hlen, hslice.mono data⟩

variable {b : SendQueueSendBuffer}

variable (h : QueueStream whole queue)
include h

theorem end_le (hb : b ∈ queue.sendingBuffers.buffers) :
    b.endStreamPos ≤ queue.sendingBuffers.streamPos := by
  obtain ⟨hle, hend, hslice⟩ := h.buffers b hb
  have hlen := hslice.length_le (h.nonempty b hb)
  have hstop := h.stop
  unfold SendQueueSendBuffer.len at hend
  omega

theorem withContext {ctx : SendContext} (hpos : ctx.streamPos = queue.sendContext.streamPos)
    (hknown : ∀ b ∈ ctx.blocks, b ∈ queue.sendContext.blocks) :
    QueueStream whole { queue with sendContext := ctx } :=
  ⟨h.stop, hpos ▸ h.start, h.buffers, h.nonempty, fun b hb => h.blocks b (hknown b hb)⟩

theorem withBuffers {buffers : List SendQueueSendBuffer}
    {curr : SendCursor} (hsub : ∀ b ∈ buffers, b ∈ queue.sendingBuffers.buffers) :
    QueueStream whole { queue with
      sendingBuffers := { queue.sendingBuffers with buffers := buffers, curr := curr } } :=
  ⟨h.stop, h.start, fun b hb => h.buffers b (hsub b hb), fun b hb => h.nonempty b (hsub b hb),
    h.blocks⟩

theorem cutBlock (mtu : Nat)
    (hb : b ∈ queue.sendingBuffers.buffers) (hstart : b.startStreamPos ≤ b.offsetStreamPos)
    (hend : b.offsetStreamPos < b.endStreamPos) :
    (SendingBuffers.cutBlock b mtu).len = (SendingBuffers.cutBlock b mtu).data.length ∧
    Slice whole (b.offsetStreamPos - PACKAGE_CONNECTION_INIT_STREAM_POS)
      (SendingBuffers.cutBlock b mtu).data := by
  obtain ⟨hle, hlen, hslice⟩ := h.buffers b hb
  have hskip : b.len - (b.endStreamPos - b.offsetStreamPos) =
      b.offsetStreamPos - b.startStreamPos := by
    omega
  constructor
  · simp only [SendQueueSendBlock.len, SendingBuffers.cutBlock, hskip, length_take,
      length_drop]
    unfold SendQueueSendBuffer.len at hlen
    omega
  have hpart := hslice.drop_take (b.offsetStreamPos - b.startStreamPos)
    (min (b.endStreamPos - b.offsetStreamPos) mtu)
  rw [show b.startStreamPos - PACKAGE_CONNECTION_INIT_STREAM_POS +
    (b.offsetStreamPos - b.startStreamPos) =
      b.offsetStreamPos - PACKAGE_CONNECTION_INIT_STREAM_POS by omega] at hpart
  show Slice whole _ (List.take (min (b.endStreamPos - b.offsetStreamPos) mtu)
    (List.drop (b.len - (b.endStreamPos - b.offsetStreamPos)) b.data))
  rw [hskip]
  exact hpart

/-- What a fill hands out is a part of the stream, and the send position only moves over a payload
that is handed out. -/
theorem fillPayload (hwf : queue.Wf) {now : Nat} {sent : Bool}
    {fill : Fill} (hfill : queue.fillPayload now = some (sent, fill, next)) :
    QueueStream whole next ∧
    PACKAGE_CONNECTION_INIT_STREAM_POS ≤ fill.streamPos ∧
    Slice whole (fill.streamPos - PACKAGE_CONNECTION_INIT_STREAM_POS) (fill.payload.getD []) ∧
    (queue.sendingBuffers.buffers = [] → next.sendingBuffers.buffers = []) ∧
    (next.sendContext.streamPos = queue.sendContext.streamPos ∨
      queue.sendingBuffers.buffers ≠ [] ∧ sent = true ∧
      fill.streamPos = queue.sendContext.streamPos ∧
      next.sendContext.streamPos = fill.streamPos + (fill.payload.getD []).length) := by
  rcases hwf.fillPayload_cases hfill with
    ⟨block, lostRest, hlost, _, rfl, rfl⟩ |
    ⟨_, hsent, _, b, hb, hstart, hend, hoffset, rfl, _, rfl⟩ | ⟨_, _, _, rfl, rfl⟩
  · -- a lost block
    have hmem : block ∈ queue.sendContext.blocks := by simp [SendContext.blocks, hlost]
    obtain ⟨hle, hlen, hslice⟩ := h.blocks block hmem
    refine ⟨⟨h.stop, h.start, h.buffers, h.nonempty, ?_⟩, hle, hslice, id, .inl rfl⟩
    intro c hc
    obtain ⟨d, hd, heq⟩ := (hwf.counted.resend hlost now).2 c hc
    rw [heq]
    exact h.blocks d hd
  · -- a new block
    obtain ⟨hcutLen, hcutSlice⟩ := h.cutBlock queue.mtu hb (hoffset ▸ hstart)
      (hoffset ▸ hend)
    obtain ⟨hcutStart, _, _, hcutEnd⟩ := hwf.cutBlock_range hend hoffset
    have hle := h.start
    have hpart : Slice whole ((SendingBuffers.cutBlock b queue.mtu).startStreamPos -
        PACKAGE_CONNECTION_INIT_STREAM_POS) (SendingBuffers.cutBlock b queue.mtu).data := by
      rw [hcutStart, ← hoffset]
      exact hcutSlice
    refine ⟨⟨h.stop, ?_, ?_, ?_, ?_⟩, hcutStart ▸ hle, hpart,
      fun hnil => absurd hnil (ne_nil_of_mem hb), .inr ⟨ne_nil_of_mem hb, hsent, hcutStart, ?_⟩⟩
    · show _ ≤ queue.sendContext.streamPos + _
      omega
    · intro c hc
      obtain ⟨d, hd, rfl⟩ := mem_map.mp hc
      split
      · exact h.buffers d hd
      · exact h.buffers d hd
    · intro c hc
      obtain ⟨d, hd, rfl⟩ := mem_map.mp hc
      split
      · exact h.nonempty d hd
      · exact h.nonempty d hd
    · intro c hc
      have hc' : c ∈ queue.sendContext.blocks ∨
          c = { SendingBuffers.cutBlock b queue.mtu with sendTime := now } := by
        simp only [SendContext.blocks, SendContext.sendNew, SendContext.addFlight, mem_append,
          mem_singleton] at hc ⊢
        tauto
      rcases hc' with hc' | rfl
      · exact h.blocks c hc'
      · exact ⟨hcutStart ▸ hle, hcutLen, hpart⟩
    show queue.sendContext.streamPos + (SendingBuffers.cutBlock b queue.mtu).len =
      (SendingBuffers.cutBlock b queue.mtu).startStreamPos +
        (SendingBuffers.cutBlock b queue.mtu).data.length
    rw [hcutStart, hcutLen]
  · exact ⟨h, h.start, by intro i hi; simp at hi, id, .inl rfl⟩

end QueueStream

/-! ## The connection and the stream -/

/-- The byte at a position of the stream was in some package that was sent. -/
def HandedOut (history : List Record) (pos : Nat) : Prop :=
  ∃ package, .send package ∈ history ∧ package.streamPos ≤ pos ∧
    pos < package.streamPos + package.payloadLength

theorem HandedOut.append {history : List Record} {pos : Nat} (h : HandedOut history pos)
    (more : List Record) : HandedOut (history ++ more) pos := by
  obtain ⟨package, hmem, hrange⟩ := h
  exact ⟨package, mem_append_left more hmem, hrange⟩

namespace PackageConnection

variable {env : PackageEnv} {limits : Limits} {c d : PackageConnection}

/-- The sending side of a connection and the stream that the user has given to it. -/
structure SendStream (c : PackageConnection) : Prop where
  queue : QueueStream (accepted c.history) c.sendQueue
  sends : ∀ package, .send package ∈ c.history →
    PACKAGE_CONNECTION_INIT_STREAM_POS ≤ package.streamPos ∧
      Slice (accepted c.history) (package.streamPos - PACKAGE_CONNECTION_INIT_STREAM_POS)
        package.payloadBytes
  handedOut : ∀ pos, PACKAGE_CONNECTION_INIT_STREAM_POS ≤ pos →
    pos < c.sendQueue.sendContext.streamPos → HandedOut c.history pos
  closed : c.state = .close → c.sendQueue.sendingBuffers.buffers = []

theorem sendStream_create (env : PackageEnv) : (create env).SendStream where
  queue := QueueStream.create env.config
  sends := by simp [create]
  handedOut := by
    intro pos hle hlt
    exact absurd hlt (Nat.not_lt.mpr hle)
  closed := by simp [create]

namespace SendStream

/-- A step that sends nothing and neither accepts bytes nor moves the send position. -/
theorem quiet (h : c.SendStream) {more : List Record} (hhist : d.history = c.history ++ more)
    (hquiet : ∀ r ∈ more, r.outgoing = false)
    (hqueue : QueueStream (accepted c.history) d.sendQueue)
    (hpos : d.sendQueue.sendContext.streamPos = c.sendQueue.sendContext.streamPos)
    (hclosed : d.state = .close → d.sendQueue.sendingBuffers.buffers = []) : d.SendStream := by
  have hacc : accepted d.history = accepted c.history := hhist ▸ accepted_quiet _ hquiet
  refine ⟨hacc ▸ hqueue, ?_, ?_, hclosed⟩
  · intro package hmem
    rw [hhist, send_mem_quiet hquiet] at hmem
    rw [hacc]
    exact h.sends package hmem
  · intro pos hle hlt
    rw [hhist]
    exact (h.handedOut pos hle (hpos ▸ hlt)).append more

theorem frame (h : c.SendStream) {more : List Record} (hhist : d.history = c.history ++ more)
    (hquiet : ∀ r ∈ more, r.outgoing = false) (hqueue : d.sendQueue = c.sendQueue)
    (hstate : d.state = .close → c.state = .close) : d.SendStream :=
  h.quiet hhist hquiet (hqueue ▸ h.queue) (by rw [hqueue])
    fun hclose => hqueue ▸ h.closed (hstate hclose)

variable {queue : SendQueue}

variable {sent : Bool} {now : Nat}

variable (h : c.SendStream)
include h

theorem filled (hwf : c.Wf env) {fill : Fill}
    (hfill : Filled env now c sent fill queue) : QueueStream (accepted c.history) queue ∧
    PACKAGE_CONNECTION_INIT_STREAM_POS ≤ fill.streamPos ∧
    Slice (accepted c.history) (fill.streamPos - PACKAGE_CONNECTION_INIT_STREAM_POS)
      (fill.payload.getD []) ∧ (c.state = .close → queue.sendingBuffers.buffers = []) ∧
    (queue.sendContext.streamPos = c.sendQueue.sendContext.streamPos ∨
      c.sendQueue.sendingBuffers.buffers ≠ [] ∧ sent = true ∧
      fill.streamPos = c.sendQueue.sendContext.streamPos ∧
      queue.sendContext.streamPos = fill.endPos) := by
  rcases hfill with ⟨_, hfill⟩ | ⟨_, _, rfl, rfl⟩
  · obtain ⟨hqueue, hle, hslice, hempty, hpos⟩ := h.queue.fillPayload hwf.queue hfill
    exact ⟨hqueue, hle, hslice, fun hclose => hempty (h.closed hclose), hpos⟩
  · exact ⟨h.queue, h.queue.start, by intro i hi; simp at hi, h.closed, .inl rfl⟩

theorem fill (hwf : c.Wf env) {fill : Fill}
    (hfill : Filled env now c sent fill queue) (hidle : sent = false ∨ c.state = .close) :
    SendStream { c with sendQueue := queue } := by
  obtain ⟨hqueue, _, _, hclosed, hpos⟩ := h.filled hwf hfill
  refine h.quiet (append_nil _).symm (by simp) hqueue ?_ hclosed
  rcases hpos with hpos | ⟨hbuffers, hsent, _⟩
  · exact hpos
  rcases hidle with hidle | hclose
  · rw [hidle] at hsent
    cases hsent
  · exact absurd (h.closed hclose) hbuffers

theorem transmit (hwf : c.Wf env) {fill : Fill} {package : Bdt_SessionDataPackage}
    (hfill : Filled env now c sent fill queue) (hout : Outgoing c fill package)
    (hstate : c.state ≠ .close) :
    SendStream { c with sendQueue := queue, history := c.history ++ [Record.send package] } := by
  obtain ⟨hqueue, hle, hslice, _, hpos⟩ := h.filled hwf hfill
  have hbytes : package.payloadBytes = fill.payload.getD [] := by
    rw [Bdt_SessionDataPackage.payloadBytes, hout.payload]
  have hacc : accepted (c.history ++ [Record.send package]) = accepted c.history := by
    rw [accepted_append]
    exact append_nil _
  refine ⟨hacc ▸ hqueue, ?_, ?_, fun hclose => absurd hclose hstate⟩
  · intro other hmem
    show _ ∧ Slice (accepted (c.history ++ [Record.send package])) _ _
    rw [hacc]
    rcases mem_concat.mp hmem with hmem | hmem
    · exact h.sends other hmem
    · obtain rfl := Record.send.inj hmem
      rw [hout.streamPos, hbytes]
      exact ⟨hle, hslice⟩
  intro pos hle hlt
  by_cases hold : pos < c.sendQueue.sendContext.streamPos
  · exact (h.handedOut pos hle hold).append _
  -- the position lies in the payload just handed out
  have hlt : pos < queue.sendContext.streamPos := hlt
  rcases hpos with hpos | ⟨_, _, hstart, hend⟩
  · omega
  refine ⟨package, mem_append_right _ (mem_singleton_self _), ?_⟩
  rw [Bdt_SessionDataPackage.payloadLength, hbytes, hout.streamPos]
  unfold Fill.endPos at hend
  omega

theorem accept {data : List UInt8} {userData : Nat}
    (hstate : c.state = .establish) (hadd : c.sendQueue.addBuffer data userData = some queue) :
    SendStream { c with sendQueue := queue, history := c.history ++ [Record.accept data userData] } := by
  have hacc : accepted (c.history ++ [Record.accept data userData]) = accepted c.history ++ data := by
    rw [accepted_append]
    exact congrArg (accepted c.history ++ ·) (append_nil data)
  have hpos : queue.sendContext = c.sendQueue.sendContext := by
    unfold SendQueue.addBuffer at hadd
    split at hadd <;> cases hadd
    rfl
  refine ⟨hacc ▸ h.queue.addBuffer hadd, ?_, ?_, fun hclose => ?_⟩
  · intro package hmem
    show _ ∧ Slice (accepted (c.history ++ [Record.accept data userData])) _ _
    rw [hacc]
    rcases mem_concat.mp hmem with hmem | hmem
    · obtain ⟨hle, hslice⟩ := h.sends package hmem
      exact ⟨hle, hslice.mono data⟩
    · cases hmem
  · intro pos hle hlt
    exact (h.handedOut pos hle (hpos ▸ hlt)).append _
  · cases hstate.symm.trans hclose

/-- `PackageConnectionMaybeCloseFinish` returns the buffers to the user. -/
theorem maybeCloseFinish : c.maybeCloseFinish.SendStream := by
  unfold PackageConnection.maybeCloseFinish
  split
  · refine h.quiet (append_assoc _ _ _) ?_ (h.queue.withBuffers (by simp)) rfl fun _ => rfl
    intro r hr
    simp only [mem_append, mem_map] at hr
    rcases hr with ⟨_, _, rfl⟩ | ⟨_, _, rfl⟩ <;> rfl
  · exact h

theorem confirm (hwf : c.Wf env) (ackStreamPos : Nat) (sackArray : Option (List BdtStreamRange)) :
    SendStream { c with sendQueue := (c.sendQueue.confirmRange ackStreamPos sackArray).1 } := by
  unfold SendQueue.confirmRange
  split
  · exact h
  obtain ⟨hconfirmed, _⟩ :=
    hwf.queue.counted.confirm hwf.queue.ordered ackStreamPos sackArray
  exact h.quiet (append_nil _).symm (by simp)
    (h.queue.withContext hconfirmed.streamPos hconfirmed.known) hconfirmed.streamPos h.closed

/-- The buffers that are wholly acknowledged go back to the user. -/
theorem complete :
    (({ c with sendQueue := c.sendQueue.popCompleteBuffers.2 }).notifySendCompleteBuffers
      c.sendQueue.popCompleteBuffers.1).SendStream := by
  obtain ⟨popped, stay, hpop, hrest, hbuffers, _⟩ := SendingBuffers.popLoop_cases
    c.sendQueue.sendContext.ackStreamPos c.sendQueue.sendingBuffers.buffers
    c.sendQueue.sendingBuffers.curr
  have hstay : c.sendQueue.popCompleteBuffers.2.sendingBuffers.buffers = stay := hrest
  refine h.quiet rfl ?_ (h.queue.withBuffers ?_) rfl fun hclose => ?_
  · intro r hr
    obtain ⟨_, _, rfl⟩ := mem_map.mp hr
    rfl
  · intro b hb
    rw [hrest] at hb
    rw [hbuffers]
    exact mem_append_right popped hb
  show c.sendQueue.popCompleteBuffers.2.sendingBuffers.buffers = []
  have hnil := h.closed hclose
  rw [hbuffers] at hnil
  exact hstay.trans (append_eq_nil_iff.mp hnil).2

/-- `PackageConnectionNotifyRecvReadyBuffers` leaves the sending side alone. -/
theorem deliver (force : Bool) : (c.deliver force).SendStream := by
  unfold PackageConnection.deliver PackageConnection.notifyRecvReadyBuffers
  simp only
  split
  · exact h.frame (append_nil _).symm (by simp) rfl id
  split
  · exact h.frame (append_nil _).symm (by simp) rfl id
  refine h.frame rfl ?_ rfl id
  intro r hr
  obtain ⟨_, _, rfl⟩ := mem_map.mp hr
  rfl

theorem effect (hwf : c.Wf env) (he : Effect env limits c d) : d.SendStream := by
  cases he with
  | note | subState => exact h.frame (append_nil _).symm (by simp) rfl id
  | fill _ _ _ _ hfill hidle => exact h.fill hwf hfill hidle
  | transmit _ _ _ _ _ hfill hout hstate => exact h.transmit hwf hfill hout hstate
  | accept _ _ _ hstate hadd => exact h.accept hstate hadd
  | beginClose => exact h.frame (append_nil _).symm (by simp) rfl nofun
  | reset hstate =>
    unfold PackageConnection.reset
    rw [if_pos hstate]
    refine maybeCloseFinish (h.frame rfl ?_ rfl nofun)
    intro r hr
    rw [mem_singleton.mp hr]
    rfl
  | closed =>
    exact maybeCloseFinish (h.frame (append_nil _).symm (by simp) rfl id)
  | receive =>
    refine h.frame rfl ?_ rfl id
    intro r hr
    rw [mem_singleton.mp hr]
    rfl
  | confirm => exact h.confirm hwf _ _
  | complete => exact h.complete
  | write =>
    unfold writePackage
    split <;> split <;> exact h.frame (append_nil _).symm (by simp) rfl id
  | deliver force => exact h.deliver force
  | timeout rto now =>
    obtain ⟨_, hmem, _⟩ := hwf.queue.counted.markRangeTimeout false rto now
    obtain ⟨_, hpos, _⟩ :=
      SendContext.markRangeTimeout_fields c.sendQueue.sendContext false rto now
    exact h.quiet (append_nil _).symm (by simp)
      (h.queue.withContext hpos fun b hb => (hmem b).mp hb) hpos h.closed
  | addRecv =>
    unfold PackageConnection.recv
    split
    · exact h
    · exact h.frame (append_nil _).symm (by simp) rfl id

end SendStream

/-- In every reachable state the buffers, the blocks and the packages hold the user's bytes. -/
theorem Reachable.sendStream (h : Reachable env c) : c.SendStream :=
  Reach.invariant (fun _ hs => hs ▸ sendStream_create env)
    (fun _ _ _ hr hs ht => (reflTransGen_preserves (fun e => e.Wf env ∧ e.SendStream)
      (fun _ _ hi he => ⟨hi.1.effect he, hi.2.effect hi.1 he⟩) (Step.effects ht)
      ⟨Reachable.wf hr, hs⟩).2) h

end PackageConnection

end Bdt
