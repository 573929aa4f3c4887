import Bdt.Base.History
import Bdt.Connection.SendQueueRuns
import Bdt.Connection.SendStream

/-!
# What the send queue hands out

`SendRun` applies a sequence of operations to a new send queue and notes the bytes that were added
and the payloads that were handed out. `transmissions_faithful_iff`: the payloads are the bytes of the
stream at their positions, the first transmissions lie one behind another, and a block that is sent
again has the position and the bytes of its first transmission, as long as no fill follows a `curr`
pointer to a buffer that was popped. An ack for bytes that were not sent can pop that buffer.
-/

namespace Bdt

open Base SendQueueSendBlock List

/-- A payload that `SendQueueFillPayload` handed out. -/
structure Transmission where
  first : Bool
  streamPos : Nat
  data : List UInt8
  deriving DecidableEq, Repr

/-- A send queue, the bytes added to it, and the payloads it handed out. -/
structure SendRun where
  queue : SendQueue
  added : List UInt8 := []
  handed : List Transmission := []
  deriving DecidableEq, Repr

namespace SendRun

/-- Apply one operation. A payload is filled when the window of the caller is open. -/
def apply (r : SendRun) : SendQueueOp → Option SendRun
  | .addBuffer data userData =>
    match r.queue.addBuffer data userData with
    | none => some r
    | some queue => some { r with queue := queue, added := r.added ++ data }
  | .fillPayload now =>
    if r.queue.WindowOpen then
      match r.queue.fillPayload now with
      | none => none
      | some (_, fill, queue) =>
        some { r with
          queue := queue
          handed := r.handed ++ (fill.payload.map fun data =>
            ⟨r.queue.sendContext.lostBlocks.isEmpty, fill.streamPos, data⟩).toList }
    else some r
  | .confirmRange ackStreamPos sackArray =>
    some { r with queue := (r.queue.confirmRange ackStreamPos sackArray).1 }
  | .markRangeTimeout force rto now =>
    some { r with queue := (r.queue.markRangeTimeout force rto now).1 }
  | .popCompleteBuffers => some { r with queue := r.queue.popCompleteBuffers.2 }

/-- Apply a sequence of operations to a new queue. -/
def run (config : BdtPackageConnectionConfig) (ops : List SendQueueOp) : Option SendRun :=
  exec apply { queue := SendQueue.create PACKAGE_CONNECTION_INIT_STREAM_POS config } ops

/-- Payloads that lie one behind another, from `start` to `stop`. -/
def Tiles : Nat → List Transmission → Nat → Prop
  | start, [], stop => start = stop
  | start, t :: rest, stop =>
    t.streamPos = start ∧ t.data ≠ [] ∧ Tiles (start + t.data.length) rest stop

theorem Tiles.append {start middle stop : Nat} {left right : List Transmission}
    (hl : Tiles start left middle) (hr : Tiles middle right stop) :
    Tiles start (left ++ right) stop := by
  induction left generalizing start with
  | nil => exact (show start = middle from hl) ▸ hr
  | cons _ _ ih => exact ⟨hl.1, hl.2.1, ih hl.2.2⟩

/-- A payload that is not handed out for the first time was handed out before. -/
def SentBefore (front : List Transmission) (t : Transmission) : Prop :=
  t.first = false → { t with first := true } ∈ front

/-- What the payloads are: parts of the stream, the first transmissions one behind another up to the
send position, and the others the same as their first transmissions. -/
structure Faithful (r : SendRun) : Prop where
  content : ∀ t ∈ r.handed, PACKAGE_CONNECTION_INIT_STREAM_POS ≤ t.streamPos ∧
    Slice r.added (t.streamPos - PACKAGE_CONNECTION_INIT_STREAM_POS) t.data
  contiguous : Tiles PACKAGE_CONNECTION_INIT_STREAM_POS (r.handed.filter (·.first))
    r.queue.sendContext.streamPos
  again : Justified SentBefore r.handed

/-- The invariant of the runs: the queue holds the stream, and every block was handed out. -/
structure Invariant (r : SendRun) : Prop where
  queue : r.queue.Wf
  stream : QueueStream r.added r.queue
  faithful : r.Faithful
  blocks : ∀ b ∈ r.queue.sendContext.blocks, ⟨true, b.startStreamPos, b.data⟩ ∈ r.handed

theorem invariant_create (config : BdtPackageConnectionConfig) :
    Invariant { queue := SendQueue.create PACKAGE_CONNECTION_INIT_STREAM_POS config } where
  queue := SendQueue.wf_create _ config
  stream := QueueStream.create config
  faithful := ⟨by simp, rfl, justified_nil⟩
  blocks := by simp [SendQueue.create, SendContext.blocks]

variable {r : SendRun}

variable {queue : SendQueue}

/-- An operation that hands out nothing and only removes or moves blocks. -/
theorem Invariant.frame (h : r.Invariant) (hwf : queue.Wf) (hstream : QueueStream r.added queue)
    (hpos : queue.sendContext.streamPos = r.queue.sendContext.streamPos)
    (hblocks : ∀ b ∈ queue.sendContext.blocks, b ∈ r.queue.sendContext.blocks) :
    Invariant { r with queue := queue } where
  queue := hwf
  stream := hstream
  faithful := ⟨h.faithful.content, by
    show Tiles _ _ queue.sendContext.streamPos
    rw [hpos]
    exact h.faithful.contiguous, h.faithful.again⟩
  blocks := fun b hb => h.blocks b (hblocks b hb)

theorem sentBefore_append (front more : List Transmission) (t : Transmission)
    (h : SentBefore front t) : SentBefore (front ++ more) t :=
  fun hfirst => mem_append_left more (h hfirst)

theorem Invariant.resend (h : r.Invariant) {block : SendQueueSendBlock}
    {lostRest : List SendQueueSendBlock} {now : Nat}
    (hlost : r.queue.sendContext.lostBlocks = block :: lostRest) (hwf : queue.Wf)
    (hstream : QueueStream r.added queue)
    (hqueue : queue = { r.queue with sendContext := r.queue.sendContext.resend block lostRest now }) :
    Invariant { r with
      queue := queue, handed := r.handed ++ [⟨false, block.startStreamPos, block.data⟩] } := by
  have hmem : block ∈ r.queue.sendContext.blocks := by simp [SendContext.blocks, hlost]
  obtain ⟨hle, _, hslice⟩ := h.stream.blocks block hmem
  refine ⟨hwf, hstream, ⟨?_, ?_, ?_⟩, ?_⟩
  · intro t ht
    rcases mem_concat.mp ht with ht | ht
    · exact h.faithful.content t ht
    · rw [ht]
      exact ⟨hle, hslice⟩
  · show Tiles _ (List.filter _ (r.handed ++ [_])) queue.sendContext.streamPos
    have hpos : queue.sendContext.streamPos = r.queue.sendContext.streamPos := by
      rw [hqueue]
      rfl
    rw [filter_append, hpos]
    simpa using h.faithful.contiguous
  · refine h.faithful.again.append sentBefore_append fun t ht _ => ?_
    rw [mem_singleton.mp ht]
    exact h.blocks block hmem
  intro b hb
  rw [hqueue] at hb
  obtain ⟨c, hc, heq⟩ := (h.queue.counted.resend hlost now).2 b hb
  rw [heq]
  exact mem_append_left _ (h.blocks c hc)

/-- A block that was just cut is sent for the first time. -/
theorem Invariant.sendNew (h : r.Invariant) {b : SendQueueSendBuffer}
    {now : Nat}
    (hb : b ∈ r.queue.sendingBuffers.buffers)
    (hstart : b.startStreamPos ≤ r.queue.sendContext.streamPos)
    (hend : r.queue.sendContext.streamPos < b.endStreamPos)
    (hoffset : b.offsetStreamPos = r.queue.sendContext.streamPos) (hwf : queue.Wf)
    (hstream : QueueStream r.added queue)
    (hqueue : queue = { r.queue with
      sendingBuffers := r.queue.sendingBuffers.advance b r.queue.mtu
      sendContext := r.queue.sendContext.sendNew (SendingBuffers.cutBlock b r.queue.mtu) now }) :
    Invariant { r with
      queue := queue
      handed := r.handed ++ [⟨true, (SendingBuffers.cutBlock b r.queue.mtu).startStreamPos,
        (SendingBuffers.cutBlock b r.queue.mtu).data⟩] } := by
  obtain ⟨hlen, hslice⟩ := h.stream.cutBlock r.queue.mtu hb (hoffset ▸ hstart) (hoffset ▸ hend)
  obtain ⟨hcut, hproper, _, hcutEnd⟩ := h.queue.cutBlock_range hend hoffset
  have hle := h.stream.start
  have hpos : queue.sendContext.streamPos = (SendingBuffers.cutBlock b r.queue.mtu).startStreamPos +
      (SendingBuffers.cutBlock b r.queue.mtu).data.length := by
    rw [hqueue, hcut, ← hlen]
    rfl
  have hdata : (SendingBuffers.cutBlock b r.queue.mtu).data ≠ [] := by
    refine ne_nil_of_length_pos ?_
    rw [← hlen]
    unfold Proper at hproper
    omega
  refine ⟨hwf, hstream, ⟨?_, ?_, ?_⟩, ?_⟩
  · intro t ht
    rcases mem_concat.mp ht with ht | ht
    · exact h.faithful.content t ht
    · rw [ht]
      exact ⟨hcut ▸ hle, hslice⟩
  · show Tiles _ (List.filter _ (r.handed ++ [_])) queue.sendContext.streamPos
    rw [filter_append, hpos]
    refine h.faithful.contiguous.append ⟨hcut, hdata, ?_⟩
    rw [← hcut]
    rfl
  · refine h.faithful.again.append sentBefore_append fun t ht hfirst => ?_
    rw [mem_singleton.mp ht] at hfirst
    cases hfirst
  intro c hc
  have hc' : c ∈ r.queue.sendContext.blocks ∨
      c = { SendingBuffers.cutBlock b r.queue.mtu with sendTime := now } := by
    simp only [hqueue, SendContext.blocks, SendContext.sendNew, SendContext.addFlight,
      mem_append, mem_singleton] at hc ⊢
    tauto
  rcases hc' with hc' | rfl
  · exact mem_append_left _ (h.blocks c hc')
  · exact mem_append_right _ (mem_singleton_self _)

theorem Invariant.step {next : SendRun} (h : r.Invariant) {op : SendQueueOp}
    (hstep : r.apply op = some next) : next.Invariant := by
  cases op with
  | addBuffer data =>
    simp only [apply] at hstep
    split at hstep
    · exact Option.some.inj hstep ▸ h
    case h_2 queue hadd =>
    cases hstep
    have hctx : queue.sendContext = r.queue.sendContext := by
      unfold SendQueue.addBuffer at hadd
      split at hadd <;> cases hadd
      rfl
    refine ⟨h.queue.addBuffer hadd, h.stream.addBuffer hadd, ⟨fun t ht => ?_, ?_,
      h.faithful.again⟩, fun b hb => h.blocks b (hctx ▸ hb)⟩
    · obtain ⟨hle, hslice⟩ := h.faithful.content t ht
      exact ⟨hle, hslice.mono data⟩
    · show Tiles _ _ queue.sendContext.streamPos
      rw [hctx]
      exact h.faithful.contiguous
  | fillPayload =>
    simp only [apply] at hstep
    split at hstep
    case isFalse => exact Option.some.inj hstep ▸ h
    case isTrue hwindow =>
    split at hstep
    · cases hstep
    case h_2 sent fill queue hfill =>
    cases hstep
    have hwf := h.queue.fillPayload hwindow hfill
    have hstream := (h.stream.fillPayload h.queue hfill).1
    rcases h.queue.fillPayload_cases hfill with
      ⟨block, lostRest, hlost, _, rfl, hqueue⟩ |
      ⟨hlost, _, _, b, hb, hstart, hend, hoffset, rfl, _, hqueue⟩ |
      ⟨hlost, _, _, rfl, hqueue⟩
    · rw [hlost]
      exact h.resend hlost hwf hstream hqueue
    · rw [hlost]
      exact h.sendNew hb hstart hend hoffset hwf hstream hqueue
    · subst hqueue
      simpa using h
  | confirmRange ackStreamPos sackArray =>
    cases hstep
    have hwf := h.queue.confirmRange ackStreamPos sackArray
    unfold SendQueue.confirmRange at hwf ⊢
    split at hwf
    case isTrue hold => rw [if_pos hold]; exact h
    case isFalse hnew =>
    rw [if_neg hnew]
    obtain ⟨hconf, _⟩ := h.queue.counted.confirm h.queue.ordered ackStreamPos sackArray
    exact h.frame hwf (h.stream.withContext hconf.streamPos hconf.known) hconf.streamPos
      hconf.known
  | markRangeTimeout force rto now =>
    cases hstep
    obtain ⟨_, hmem, _⟩ := h.queue.counted.markRangeTimeout force rto now
    obtain ⟨_, hpos, _⟩ := SendContext.markRangeTimeout_fields r.queue.sendContext force rto now
    exact h.frame (h.queue.markRangeTimeout force rto now)
      (h.stream.withContext hpos fun b hb => (hmem b).mp hb) hpos fun b hb => (hmem b).mp hb
  | popCompleteBuffers =>
    cases hstep
    obtain ⟨popped, stay, _, hstay, hbuffers, _⟩ := SendingBuffers.popLoop_cases
      r.queue.sendContext.ackStreamPos r.queue.sendingBuffers.buffers r.queue.sendingBuffers.curr
    refine h.frame h.queue.popCompleteBuffers (h.stream.withBuffers fun b hb => ?_) rfl
      fun _ hb => hb
    rw [hstay] at hb
    rw [hbuffers]
    exact mem_append_right popped hb

/-- An operation is undefined exactly when it is a fill, in an open window, through the dangling
pointer. -/
theorem Invariant.apply_none_iff (h : r.Invariant) (op : SendQueueOp) :
    r.apply op = none ↔ ∃ now, op = .fillPayload now ∧ r.queue.WindowOpen ∧
      r.queue.FollowsDangling := by
  cases op with
  | fillPayload now =>
    simp only [apply, SendQueueOp.fillPayload.injEq, exists_eq_left']
    rw [← h.queue.fillPayload_none_iff now]
    split
    case isTrue hwindow =>
      rw [and_iff_right hwindow]
      split <;> simp_all
    case isFalse hwindow => simp [hwindow]
  | addBuffer =>
    simp only [apply]
    split <;> simp
  | _ => simp [apply]

theorem run_invariant {config : BdtPackageConnectionConfig} {ops : List SendQueueOp}
    (hrun : run config ops = some r) : r.Invariant :=
  exec_preserves (fun _ _ _ h hstep => h.step hstep) (invariant_create config) hrun

/-- A sequence of operations hands out the bytes of the stream, the first time one behind another and
then again as they were, if and only if none of its fills follows the dangling pointer. -/
theorem transmissions_faithful_iff (config : BdtPackageConnectionConfig) (ops : List SendQueueOp) :
    (∃ r, run config ops = some r ∧ r.Faithful) ↔
      ∀ before now r, before ++ [.fillPayload now] <+: ops → run config before = some r →
        ¬ (r.queue.WindowOpen ∧ r.queue.FollowsDangling) := by
  constructor
  · rintro ⟨r, hrun, _⟩ before now s ⟨after, rfl⟩ hbefore hdangling
    have hnone : s.apply (.fillPayload now) = none :=
      ((run_invariant hbefore).apply_none_iff _).mpr ⟨now, rfl, hdangling⟩
    have hexec : run config before = some s := hbefore
    unfold run at hexec hrun
    rw [exec_append, exec_concat, hexec, Option.bind_some, hnone] at hrun
    cases hrun
  intro hno
  have hsome : ∃ r, run config ops = some r := by
    refine (@exec_defined_iff _ _ _ (fun r op => SendRun.apply r op ≠ none) _ _ (fun _ => True) trivial
      (fun _ _ _ _ _ => trivial) fun _ _ _ => .rfl).mpr fun front op back s heq hfront hnone => ?_
    obtain ⟨now, rfl, hdangling⟩ := ((run_invariant hfront).apply_none_iff op).mp hnone
    exact hno front now s ⟨back, by simp [heq]⟩ hfront hdangling
  obtain ⟨r, hr⟩ := hsome
  exact ⟨r, hr, (run_invariant hr).faithful⟩

/-- Two thousand bytes, of which one block is sent, and an ack for all of them. -/
def ackAheadOps : List SendQueueOp :=
  [.addBuffer (List.replicate 2000 0) 0, .fillPayload 0, .confirmRange 2001 none,
    .popCompleteBuffers, .fillPayload 0]

/-- The second fill reads the buffer that the ack has popped. -/
theorem ack_ahead_dangles : ¬ ∀ (config : BdtPackageConnectionConfig) (ops : List SendQueueOp),
    ∃ r, run config ops = some r ∧ r.Faithful := by
  intro h
  obtain ⟨r, hrun, _⟩ := h pkgConConfig ackAheadOps
  have hnone : run pkgConConfig ackAheadOps = none := by decide +kernel
  rw [hnone] at hrun
  cases hrun

end SendRun

end Bdt
