import Bdt.Connection.Invariant
import Bdt.Connection.RecvInvariant

/-!
# The bytes that are received

`delivered history` are the bytes that the recv callbacks got. `PackageConnection.Receiving` says
where they come from: together they are as long as the read position, and each of them was in a
package that was received, at its own position. The receive queue holds the bytes behind them until
the connection is closed, when the users' buffers are handed back empty.
-/

namespace Bdt

open Base Relation List

/-! ## Histories -/

/-- The bytes that the recv callbacks got. -/
def delivered (history : List Record) : List UInt8 :=
  history.flatMap fun
    | .recv data _ => data
    | _ => []

/-- A package was received that holds this byte at this position of the stream. -/
def Arrived (history : List Record) (pos : Nat) (x : UInt8) : Prop :=
  ∃ package, .receive package ∈ history ∧ package.streamPos ≤ pos ∧
    package.payloadBytes[pos - package.streamPos]? = some x

/-- A record that is not a recv callback. -/
def Record.notRecv : Record → Bool
  | .recv _ _ => false
  | _ => true

theorem delivered_append (history more : List Record) :
    delivered (history ++ more) = delivered history ++ delivered more :=
  flatMap_append

theorem delivered_notRecv {more : List Record} (h : ∀ r ∈ more, r.notRecv = true) :
    delivered more = [] := by
  refine flatMap_eq_nil_iff.mpr fun r hr => ?_
  have hquiet := h r hr
  cases r <;> first | rfl | cases hquiet

theorem Arrived.append {history : List Record} {pos : Nat} {x : UInt8} (h : Arrived history pos x)
    (more : List Record) : Arrived (history ++ more) pos x := by
  obtain ⟨package, hmem, hbyte⟩ := h
  exact ⟨package, mem_append_left more hmem, hbyte⟩

/-- The recv callbacks of popped buffers get the bytes handed out. -/
theorem delivered_recvRecord (popped : List RecvQueueRecvBuffer) :
    delivered (popped.map PackageConnection.recvRecord) = RecvStream.handed popped := by
  unfold delivered RecvStream.handed
  rw [flatMap_map]
  rfl

/-! ## Operations of the receive queue -/

theorem notifyLoop_consecutive {start stop : Nat} {popped : List RecvQueueRecvBuffer}
    (h : RecvStream.Consecutive start popped stop) :
    PackageConnection.notifyLoop start popped = (popped, [], stop) := by
  induction popped generalizing start with
  | nil => exact (show start = stop from h) ▸ rfl
  | cons _ _ ih =>
    obtain ⟨hstart, _, hrest⟩ := h
    simp only [PackageConnection.notifyLoop, hstart, if_true, ih hrest]

theorem mergeReady_nil (buffers : List RecvQueueRecvBuffer) :
    PackageConnection.mergeReady [] buffers = buffers := by
  cases buffers <;> simp [PackageConnection.mergeReady]

/-- A queue without buffers saves nothing that is not read yet. -/
theorem RecvQueue.writeData_empty {queue : RecvQueue} (hempty : queue.recvStream.buffers = [])
    (hread : queue.recvStream.readStreamPos ≤ queue.recvBlock.ackStreamPos) (streamPos : Nat)
    (payload : List UInt8) :
    (queue.writeData streamPos payload).2.recvBlock = queue.recvBlock ∧
    (queue.writeData streamPos payload).2.recvStream.readStreamPos =
      queue.recvStream.readStreamPos ∧
    (queue.writeData streamPos payload).2.recvStream.buffers = [] := by
  have hsaved : (queue.recvStream.savePayload streamPos payload).2.readStreamPos =
        queue.recvStream.readStreamPos ∧
      (queue.recvStream.savePayload streamPos payload).2.buffers = [] ∧
      ((queue.recvStream.savePayload streamPos payload).1 = 0 ∨
        streamPos + (queue.recvStream.savePayload streamPos payload).1 ≤
          queue.recvStream.readStreamPos) := by
    unfold RecvStream.savePayload RecvStream.saveUnread
    simp only [hempty, RecvStream.saveFrom]
    split
    case isTrue hbefore =>
      split
      · exact ⟨rfl, rfl, .inr (by show streamPos + (_ + 0) ≤ _; omega)⟩
      case isFalse hall => exact ⟨rfl, hempty, .inr (by show streamPos + payload.length ≤ _; omega)⟩
    case isFalse => exact ⟨rfl, rfl, .inl rfl⟩
  obtain ⟨hpos, hbuffers, hlen⟩ := hsaved
  unfold RecvQueue.writeData
  split
  · exact ⟨rfl, rfl, hempty⟩
  split
  · exact ⟨rfl, rfl, hempty⟩
  generalize queue.recvStream.savePayload streamPos payload = saved at *
  obtain ⟨saveLen, stream⟩ := saved
  simp only at hpos hbuffers hlen ⊢
  split
  · exact ⟨rfl, hpos, hbuffers⟩
  case isFalse hsome =>
  have hold : queue.recvBlock.updateStreamPos streamPos (streamPos + saveLen) =
      (.old, queue.recvBlock) := by
    unfold RecvBlocks.updateStreamPos
    rw [if_pos (by omega)]
  rw [hold]
  exact ⟨rfl, hpos, hbuffers⟩

/-! ## The invariant -/

namespace PackageConnection

variable {env : PackageEnv} {limits : Limits} {c d : PackageConnection}

/-- The receiving side of a connection and the bytes it has delivered. -/
structure Receiving (c : PackageConnection) : Prop where
  queue : c.state ≠ .close → c.recvQueue.Wf (Arrived c.history)
  empty : c.state = .close → c.recvQueue.recvStream.buffers = []
  read_le : c.recvQueue.recvStream.readStreamPos ≤ c.recvQueue.recvBlock.ackStreamPos
  ready : c.recvReadyQueue =
    { buffers := [], streamPos := c.recvQueue.recvStream.readStreamPos, onNotifying := false }
  count : PACKAGE_CONNECTION_INIT_STREAM_POS + (delivered c.history).length =
    c.recvQueue.recvStream.readStreamPos
  bytes : ∀ i x, (delivered c.history)[i]? = some x →
    Arrived c.history (PACKAGE_CONNECTION_INIT_STREAM_POS + i) x
  /-- Buffers are handed back empty when the connection is closed, and nothing is delivered then. -/
  returned : ∃ live tail, c.history = live ++ tail ∧ (∀ userData, .recv [] userData ∉ live) ∧
    delivered tail = [] ∧ (c.state ≠ .close → tail = [])

theorem receiving_create (env : PackageEnv) : (create env).Receiving where
  queue := fun _ => RecvQueue.wf_create _ _
  empty := by simp [create]
  read_le := Nat.le_refl _
  ready := rfl
  count := rfl
  bytes := by simp [create, delivered]
  returned := ⟨[], [], rfl, by simp, rfl, fun _ => rfl⟩

namespace Receiving

variable (h : c.Receiving)
include h

theorem grow {more : List Record} (hhist : d.history = c.history ++ more)
    (hmore : ∀ r ∈ more, r.notRecv = true) (hqueue : d.recvQueue = c.recvQueue)
    (hready : d.recvReadyQueue = c.recvReadyQueue) (hstate : d.state = .close ↔ c.state = .close) :
    d.Receiving := by
  have hdelivered : delivered d.history = delivered c.history := by
    rw [hhist, delivered_append, delivered_notRecv hmore, append_nil]
  have harrived : ∀ pos x, Arrived c.history pos x → Arrived d.history pos x :=
    fun pos x harr => hhist ▸ harr.append more
  refine ⟨fun hopen => ?_, fun hclose => ?_, hqueue ▸ h.read_le, ?_, ?_, ?_, ?_⟩
  · rw [hqueue]
    exact (h.queue (fun hc => hopen (hstate.mpr hc))).weaken harrived
  · rw [hqueue]
    exact h.empty (hstate.mp hclose)
  · rw [hready, hqueue]
    exact h.ready
  · rw [hdelivered, hqueue]
    exact h.count
  · intro i x hx
    rw [hdelivered] at hx
    exact harrived _ _ (h.bytes i x hx)
  obtain ⟨live, tail, hlive, hno, htail, hopen⟩ := h.returned
  by_cases hclose : c.state = .close
  · refine ⟨live, tail ++ more, by rw [hhist, hlive, append_assoc], hno, ?_, ?_⟩
    · rw [delivered_append, htail, delivered_notRecv hmore]
      rfl
    · exact fun hne => absurd (hstate.mpr hclose) hne
  refine ⟨live ++ more, [], ?_, ?_, rfl, fun _ => rfl⟩
  · rw [hhist, hlive, hopen hclose, append_nil, append_nil]
  intro userData hmem
  rcases mem_append.mp hmem with hmem | hmem
  · exact hno userData hmem
  · cases hmore _ hmem

theorem frame (hhist : d.history = c.history) (hqueue : d.recvQueue = c.recvQueue)
    (hready : d.recvReadyQueue = c.recvReadyQueue) (hstate : d.state = .close ↔ c.state = .close) :
    d.Receiving :=
  h.grow (hhist.trans (append_nil _).symm) (by simp) hqueue hready hstate

/-- The buffers that are complete go to their callbacks, all of them. -/
theorem deliver_eq (hopen : c.state ≠ .close) (force : Bool) :
    c.deliver force = { c with
      recvQueue := (c.recvQueue.popCompleteBuffers force).2
      recvReadyQueue :=
        { buffers := [], onNotifying := false
          streamPos := (c.recvQueue.popCompleteBuffers force).2.recvStream.readStreamPos }
      history := c.history ++ (c.recvQueue.popCompleteBuffers force).1.map recvRecord } := by
  obtain ⟨_, hpopped⟩ := (h.queue hopen).popCompleteBuffers force
  have hready := h.ready
  unfold PackageConnection.deliver PackageConnection.notifyRecvReadyBuffers
  simp only
  generalize c.recvQueue.popCompleteBuffers force = r at *
  split
  case isTrue hnil =>
    have hsame : c.recvQueue.recvStream.readStreamPos = r.2.recvStream.readStreamPos := by
      have hconsecutive := hpopped.consecutive
      rw [hnil] at hconsecutive
      exact hconsecutive
    rw [hnil, map_nil, append_nil, ← hsame, ← hready]
  case isFalse =>
  have hloop := notifyLoop_consecutive hpopped.consecutive
  simp only [hready, mergeReady_nil, hloop]
  rfl

theorem deliver (force : Bool) : (c.deliver force).Receiving := by
  by_cases hclose : c.state = .close
  · -- there is no buffer left
    have hempty := h.empty hclose
    have hpop : c.recvQueue.popCompleteBuffers force = ([], c.recvQueue) := by
      unfold RecvQueue.popCompleteBuffers
      rw [hempty, RecvStream.popLoop]
      rw [← hempty]
    unfold PackageConnection.deliver
    rw [hpop]
    exact h
  obtain ⟨hqueue, hpopped⟩ := (h.queue hclose).popCompleteBuffers force
  rw [h.deliver_eq hclose force]
  have hcount := h.count
  have hle := hpopped.le
  have hdelivered : delivered (c.history ++
      (c.recvQueue.popCompleteBuffers force).1.map recvRecord) =
      delivered c.history ++ RecvStream.handed (c.recvQueue.popCompleteBuffers force).1 := by
    rw [delivered_append, delivered_recvRecord]
  have harrived : ∀ pos x, Arrived c.history pos x → Arrived (c.history ++
      (c.recvQueue.popCompleteBuffers force).1.map recvRecord) pos x :=
    fun pos x harr => harr.append _
  refine ⟨fun _ => hqueue.weaken harrived, fun hc => absurd hc hclose, hqueue.read_le, rfl, ?_, ?_,
    ?_⟩
  · rw [hdelivered, length_append, hpopped.length]
    show _ = (c.recvQueue.popCompleteBuffers force).2.recvStream.readStreamPos
    omega
  · intro i x hx
    rw [hdelivered] at hx
    by_cases hi : i < (delivered c.history).length
    · rw [getElem?_append_left hi] at hx
      exact harrived _ _ (h.bytes i x hx)
    rw [getElem?_append_right (Nat.not_lt.mp hi)] at hx
    have harr := harrived _ _ (hpopped.bytes _ x hx)
    rwa [show c.recvQueue.recvStream.readStreamPos + (i - (delivered c.history).length) =
      PACKAGE_CONNECTION_INIT_STREAM_POS + i by omega] at harr
  obtain ⟨live, tail, hlive, hno, _, hopen⟩ := h.returned
  refine ⟨live ++ (c.recvQueue.popCompleteBuffers force).1.map recvRecord, [], ?_, ?_, rfl,
    fun _ => rfl⟩
  · show c.history ++ _ = _
    rw [hlive, hopen hclose, append_nil, append_nil]
  intro userData hmem
  rcases mem_append.mp hmem with hmem | hmem
  · exact hno userData hmem
  obtain ⟨b, hb, heq⟩ := mem_map.mp hmem
  have hnonempty := hpopped.nonempty b hb
  injection heq with hdata
  exact hnonempty hdata

/-- `PackageConnectionMaybeCloseFinish` hands the remaining buffers back empty. -/
theorem maybeCloseFinish : c.maybeCloseFinish.Receiving := by
  unfold PackageConnection.maybeCloseFinish
  split
  case isFalse => exact h
  case isTrue hfinish =>
  have hopen : c.state ≠ .close := by
    rw [hfinish.2.2]
    simp
  generalize hmore : (c.recvQueue.popAllBuffers.1.map fun b => Record.recv [] b.userData) ++
    (c.sendQueue.popAllBuffers.1.map fun b => Record.sendComplete b b.len) = more
  have hnone : delivered more = [] := by
    refine flatMap_eq_nil_iff.mpr fun r hr => ?_
    rw [← hmore] at hr
    simp only [mem_append, mem_map] at hr
    rcases hr with ⟨_, _, rfl⟩ | ⟨_, _, rfl⟩ <;> rfl
  have hhist : ∀ history : List Record, history ++
      (c.recvQueue.popAllBuffers.1.map fun b => Record.recv [] b.userData) ++
      (c.sendQueue.popAllBuffers.1.map fun b => Record.sendComplete b b.len) = history ++ more :=
    fun history => by rw [← hmore, append_assoc]
  simp only [hhist]
  have hdelivered : delivered (c.history ++ more) = delivered c.history := by
    rw [delivered_append, hnone, append_nil]
  refine ⟨fun hne => absurd rfl hne, fun _ => rfl, h.read_le, h.ready, ?_, ?_, ?_⟩
  · rw [hdelivered]
    exact h.count
  · intro i x hx
    rw [hdelivered] at hx
    exact (h.bytes i x hx).append more
  · obtain ⟨live, tail, hlive, hno, _, htail⟩ := h.returned
    exact ⟨live, more, by rw [hlive, htail hopen, append_nil], hno, hnone,
      fun hne => absurd rfl hne⟩

theorem write {package : Bdt_SessionDataPackage}
    (hrec : .receive package ∈ c.history) : (c.writePackage package).2.Receiving := by
  -- the sub-state of the package does not matter here
  have hwrite : Receiving { c with
      recvQueue := (c.recvQueue.writeData package.streamPos package.payloadBytes).2 } := by
    have harrived : ∀ i x, package.payloadBytes[i]? = some x →
        Arrived c.history (package.streamPos + i) x := fun i x hx =>
      ⟨package, hrec, Nat.le_add_right _ _, by rwa [Nat.add_sub_cancel_left]⟩
    by_cases hclose : c.state = .close
    · obtain ⟨hblock, hread, hbuffers⟩ := RecvQueue.writeData_empty (h.empty hclose) h.read_le
        package.streamPos package.payloadBytes
      refine ⟨fun hne => absurd hclose hne, fun _ => hbuffers, ?_, ?_, ?_, h.bytes, h.returned⟩
      · show RecvStream.readStreamPos _ ≤ RecvBlocks.ackStreamPos _
        rw [hread, hblock]
        exact h.read_le
      · rw [hread]
        exact h.ready
      · rw [hread]
        exact h.count
    obtain ⟨hqueue, hread⟩ := (h.queue hclose).writeData harrived
    refine ⟨fun _ => hqueue, fun hc => absurd hc hclose, hqueue.read_le, ?_, ?_, h.bytes,
      h.returned⟩
    · rw [hread]
      exact h.ready
    · rw [hread]
      exact h.count
  unfold writePackage
  simp only
  split <;> split
  · exact hwrite.frame rfl rfl rfl Iff.rfl
  · exact hwrite
  · exact h.frame rfl rfl rfl Iff.rfl
  · exact h

theorem effect (he : Effect env limits c d) : d.Receiving := by
  cases he with
  | note | subState | fill | confirm | timeout => exact h.frame rfl rfl rfl Iff.rfl
  | transmit | accept | receive => exact h.grow rfl (by simp [Record.notRecv]) rfl rfl Iff.rfl
  | beginClose hstate => exact h.frame rfl rfl rfl (by simp [hstate])
  | reset hstate =>
    unfold PackageConnection.reset
    rw [if_pos hstate]
    exact maybeCloseFinish (h.grow rfl (by simp [Record.notRecv]) rfl rfl (by simp [hstate]))
  | closed => exact maybeCloseFinish (h.frame rfl rfl rfl Iff.rfl)
  | complete =>
    refine h.grow rfl ?_ rfl rfl Iff.rfl
    intro r hr
    obtain ⟨_, _, rfl⟩ := mem_map.mp hr
    rfl
  | write _ hrec => exact h.write hrec
  | deliver force => exact h.deliver force
  | addRecv address data userData =>
    unfold PackageConnection.recv
    split
    · exact h
    case isFalse hopen =>
    cases hadd : c.recvQueue.addBuffer address data userData with
    | none => exact h
    | some queue =>
      have hread := (RecvQueue.addBuffer_fields hadd).2
      have hqueue := (h.queue hopen).addBuffer hadd
      refine ⟨fun _ => hqueue, fun hc => absurd hc hopen, hqueue.read_le, ?_, ?_, h.bytes,
        h.returned⟩
      · show _ = RecvReadyQueue.mk _ queue.recvStream.readStreamPos _
        rw [hread]
        exact h.ready
      · show _ = queue.recvStream.readStreamPos
        rw [hread]
        exact h.count

theorem effects (he : ReflTransGen (Effect env limits) c d) : d.Receiving :=
  reflTransGen_preserves (fun e => e.Receiving) (fun _ _ hs ht => hs.effect ht) he h

end Receiving

/-- In every reachable state the bytes delivered were received, in order and without a gap. -/
theorem Reachable.receiving (h : Reachable env c) : c.Receiving :=
  Reach.invariant (fun _ hs => hs ▸ receiving_create env)
    (fun _ _ _ _ hs ht => hs.effects (Step.effects ht)) h

end PackageConnection

end Bdt
