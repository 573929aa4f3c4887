import Bdt.Base.Transition
import Bdt.Connection.SendInvariant

/-!
# Runs of the send queue

`SendQueue.run` applies a sequence of operations to a queue; it is defined as long as no fill follows
a `curr` pointer to a buffer that was popped (`Wf.run_defined_iff`). `run_consistent` is the accounting
result for every such sequence: the counters are the sums of the lengths of the blocks, the lists are
in order, and the blocks do not overlap. A partial ack moves the block it cuts to the lost list as it
is, so the block that comes first may start below the ack position; the others may not
(`SendQueue.Bounded`).
-/

namespace Bdt

open Base SendQueueSendBlock Option

/-- The operations of the send drive, of the received packages and of the timers on a send queue. -/
inductive SendQueueOp where
  | addBuffer (data : List UInt8) (userData : Nat)
  | fillPayload (now : Nat)
  | confirmRange (ackStreamPos : Nat) (sackArray : Option (List BdtStreamRange))
  | markRangeTimeout (force : Bool) (rto now : Nat)
  | popCompleteBuffers

/-- A fill that follows the dangling `curr` pointer: nothing is lost, and a new block is due. -/
def SendQueue.FollowsDangling (queue : SendQueue) : Prop :=
  queue.sendContext.lostBlocks = [] ∧ queue.sendingBuffers.unSendLength ≠ 0 ∧
    queue.sendingBuffers.curr = .dangling

/-- `SendQueueFillPayload` is undefined exactly when it follows the dangling pointer. -/
theorem SendQueue.Wf.fillPayload_none_iff {queue : SendQueue} (h : queue.Wf) (now : Nat) :
    queue.fillPayload now = none ↔ queue.FollowsDangling := by
  unfold SendQueue.fillPayload SendQueue.FollowsDangling
  cases hlost : queue.sendContext.lostBlocks with
  | cons => simp
  | nil =>
    rcases h.layout with hdang | hlaid
    · have hgen := SendingBuffers.generateBlock_dangling queue.mtu hdang
      by_cases hz : queue.sendingBuffers.unSendLength = 0
      · simp [hgen, hz]
      · simp [hgen, hz, hdang]
    have hcurr : queue.sendingBuffers.curr ≠ .dangling := by
      rw [hlaid.curr]
      exact SendingBuffers.cursorAt_ne_dangling _ _
    rcases hlaid.generateBlock h.mtu_pos with ⟨_, hgen⟩ | ⟨b, _, _, _, _, hgen, _⟩ <;>
      simp [hgen, hcurr]

namespace SendQueue

/-- Apply one operation. A package is only filled while the window of the caller is open; `none`
stands for a fill that follows a dangling pointer. -/
def step (queue : SendQueue) : SendQueueOp → Option SendQueue
  | .addBuffer data userData => some ((queue.addBuffer data userData).getD queue)
  | .fillPayload now =>
    if queue.WindowOpen then (queue.fillPayload now).map fun r => r.2.2 else some queue
  | .confirmRange ackStreamPos sackArray => some (queue.confirmRange ackStreamPos sackArray).1
  | .markRangeTimeout force rto now => some (queue.markRangeTimeout force rto now).1
  | .popCompleteBuffers => some queue.popCompleteBuffers.2

/-- Apply a sequence of operations. -/
def run (queue : SendQueue) (ops : List SendQueueOp) : Option SendQueue :=
  exec SendQueue.step queue ops

/-- An ack is for bytes that were handed out. -/
def ackSent (queue : SendQueue) : SendQueueOp → Bool
  | .confirmRange ackStreamPos _ => ackStreamPos ≤ queue.sendContext.streamPos
  | _ => true

/-- Every ack of the sequence is for bytes that were handed out before it. -/
def acksSent (queue : SendQueue) : List SendQueueOp → Bool
  | [] => true
  | op :: ops => queue.ackSent op && (queue.step op).all fun next => next.acksSent ops

/-- The accounting of the queue. -/
structure Consistent (queue : SendQueue) : Prop where
  flight_eq : queue.sendContext.flight = totalLen queue.sendContext.flightBlocks
  lost_eq : queue.sendContext.lost = totalLen queue.sendContext.lostBlocks
  no_underflow : queue.sendContext.underflow = false ∧ queue.sendingBuffers.underflow = false
  flight_sorted : queue.sendContext.flightBlocks.Pairwise
    fun b c => b.startStreamPos < c.startStreamPos
  lost_sorted : queue.sendContext.lostBlocks.Pairwise fun b c => b.startStreamPos < c.startStreamPos
  disjoint : queue.sendContext.blocks.Pairwise Apart
  inside : ∀ b ∈ queue.sendContext.blocks, b.startStreamPos < b.endStreamPos ∧
    b.endStreamPos ≤ queue.sendContext.streamPos

/-- Every block ends above the first unacknowledged position, and only the first block may start
below it. -/
def Bounded (queue : SendQueue) : Prop :=
  ∀ b ∈ queue.sendContext.blocks, queue.sendContext.ackStreamPos < b.endStreamPos ∧
    (b.startStreamPos < queue.sendContext.ackStreamPos →
      ∀ c ∈ queue.sendContext.blocks, c = b ∨ b.endStreamPos ≤ c.startStreamPos)

/-- Ordered blocks have increasing start positions. -/
theorem starts_increase {blocks : List SendQueueSendBlock} (hproper : ∀ b ∈ blocks, b.Proper)
    (hsorted : blocks.Pairwise Before) :
    blocks.Pairwise fun b c => b.startStreamPos < c.startStreamPos := by
  refine hsorted.imp_of_mem ?_
  intro b c hb _ hbc
  have := hproper b hb
  unfold Before Proper at *
  omega

variable {queue next : SendQueue}

theorem Wf.consistent (h : queue.Wf) : queue.Consistent := { h.counted with
  no_underflow := ⟨h.counted.underflow, h.noUnderflow⟩
  flight_sorted := starts_increase (fun b hb => h.counted.parted.proper b (by simp [hb]))
    h.counted.parted.flight_sorted
  lost_sorted := starts_increase (fun b hb => h.counted.parted.proper b (by simp [hb]))
    h.counted.parted.lost_sorted
  disjoint := h.counted.parted.pairwise_apart
  inside := fun b hb => ⟨h.counted.parted.proper b hb, h.inside b hb⟩ }

/-- The ack position is one of bytes that were handed out, and every block ends above it. -/
structure AckInside (queue : SendQueue) : Prop where
  ack_le : queue.sendContext.ackStreamPos ≤ queue.sendContext.streamPos
  above : ∀ b ∈ queue.sendContext.blocks, queue.sendContext.ackStreamPos < b.endStreamPos

theorem AckInside.bounded (h : queue.AckInside) (hwf : queue.Wf) : queue.Bounded := by
  intro b hb
  refine ⟨h.above b hb, fun hstart c hc => ?_⟩
  rcases hwf.counted.parted.eq_or_apart b hb c hc with heq | hbefore | hbefore
  · exact .inl heq.symm
  · exact .inr hbefore
  · have := h.above c hc
    unfold Before at hbefore
    omega

variable {op : SendQueueOp} {ops : List SendQueueOp}

theorem Wf.step (h : queue.Wf) (hstep : queue.step op = some next) : next.Wf := by
  cases op with
  | addBuffer data userData =>
    cases ha : queue.addBuffer data userData with
    | none =>
      simp only [SendQueue.step, ha, getD_none, some.injEq] at hstep
      exact hstep ▸ h
    | some =>
      simp only [SendQueue.step, ha, getD_some, some.injEq] at hstep
      exact hstep ▸ h.addBuffer ha
  | fillPayload =>
    simp only [SendQueue.step] at hstep
    split at hstep
    case isTrue hwindow =>
      obtain ⟨⟨sent, fill, after⟩, hfill, rfl⟩ := map_eq_some_iff.mp hstep
      exact h.fillPayload hwindow hfill
    case isFalse => exact some.inj hstep ▸ h
  | confirmRange ackStreamPos sackArray =>
    cases hstep
    exact h.confirmRange ackStreamPos sackArray
  | markRangeTimeout force rto now =>
    cases hstep
    exact h.markRangeTimeout force rto now
  | popCompleteBuffers =>
    cases hstep
    exact h.popCompleteBuffers

/-- One operation keeps the ack position inside the bytes handed out, if its ack is one. -/
theorem AckInside.step (h : queue.AckInside) (hwf : queue.Wf) (hstep : queue.step op = some next)
    (hack : queue.ackSent op = true) : next.AckInside := by
  cases op with
  | addBuffer data userData =>
    have hctx : next.sendContext = queue.sendContext := by
      simp only [SendQueue.step, SendQueue.addBuffer, some.injEq] at hstep
      rw [← hstep]
      split <;> rfl
    exact ⟨by rw [hctx]; exact h.ack_le, by rw [hctx]; exact h.above⟩
  | fillPayload now =>
    simp only [SendQueue.step] at hstep
    split at hstep
    case isTrue hwindow =>
      obtain ⟨⟨sent, fill, after⟩, hfill, rfl⟩ := map_eq_some_iff.mp hstep
      rcases hwf.fillPayload_cases hfill with
        ⟨block, lostRest, hlost, _, _, rfl⟩ |
        ⟨_, _, _, b, _, _, hend, hoffset, _, _, rfl⟩ | ⟨_, _, _, _, rfl⟩
      · refine ⟨h.ack_le, fun c hc => ?_⟩
        obtain ⟨d, hd, heq⟩ := (hwf.counted.resend hlost now).2 c hc
        rw [heq]
        exact h.above d hd
      · obtain ⟨hcut, hproper, _, hcutEnd⟩ := hwf.cutBlock_range hend hoffset
        have hle := h.ack_le
        refine ⟨Nat.le_trans hle (Nat.le_add_right _ _), fun c hc => ?_⟩
        simp only [SendContext.blocks, SendContext.sendNew, List.mem_append,
          List.mem_singleton] at hc
        rcases hc with (hc | rfl) | hc
        · exact h.above c (List.mem_append.mpr (.inl hc))
        · unfold Proper at hproper
          show queue.sendContext.ackStreamPos < (SendingBuffers.cutBlock b queue.mtu).endStreamPos
          omega
        · exact h.above c (List.mem_append.mpr (.inr hc))
      · exact h
    case isFalse => exact some.inj hstep ▸ h
  | confirmRange ackStreamPos sackArray =>
    have hle : ackStreamPos ≤ queue.sendContext.streamPos := by simpa [ackSent] using hack
    have hcur := h.ack_le
    simp only [SendQueue.step, some.injEq] at hstep
    subst hstep
    unfold SendQueue.confirmRange
    split
    · exact h
    obtain ⟨hconf, hackPos, habove⟩ :=
      hwf.counted.confirm hwf.ordered ackStreamPos sackArray
    refine ⟨?_, habove h.above⟩
    show SendContext.ackStreamPos _ ≤ SendContext.streamPos _
    rw [hackPos, hconf.streamPos]
    omega
  | markRangeTimeout force rto now =>
    cases hstep
    obtain ⟨_, hmem, _, _⟩ := hwf.counted.markRangeTimeout force rto now
    obtain ⟨hackPos, hpos, _, _⟩ :=
      SendContext.markRangeTimeout_fields queue.sendContext force rto now
    refine ⟨?_, fun b hb => ?_⟩
    · rw [markRangeTimeout_sendContext, hackPos, hpos]
      exact h.ack_le
    · rw [markRangeTimeout_sendContext, hackPos]
      exact h.above b ((hmem b).mp hb)
  | popCompleteBuffers =>
    cases hstep
    exact ⟨h.ack_le, h.above⟩

/-- A fill, in an open window, that follows the dangling pointer. -/
def FillsDangling (queue : SendQueue) (op : SendQueueOp) : Prop :=
  (∃ now, op = .fillPayload now) ∧ queue.WindowOpen ∧ queue.FollowsDangling

theorem Wf.step_none_iff (h : queue.Wf) : queue.step op = none ↔ queue.FillsDangling op := by
  unfold FillsDangling
  cases op with
  | fillPayload now =>
    simp only [SendQueue.step, SendQueueOp.fillPayload.injEq, exists_eq', true_and]
    rw [← h.fillPayload_none_iff now]
    split
    case isTrue hwindow => simp [hwindow]
    case isFalse hwindow => simp [hwindow]
  | _ => simp [SendQueue.step]

/-- A sequence of operations is defined exactly when none of its fills follows the dangling
pointer. -/
theorem Wf.run_defined_iff (h : queue.Wf) : (∃ next, queue.run ops = some next) ↔
    StepsMeet SendQueue.step (fun queue op => ¬ queue.FillsDangling op) queue ops :=
  exec_defined_iff h (fun _ _ _ hwf hstep => hwf.step hstep) fun _ _ hwf =>
    hwf.step_none_iff.not.symm

theorem Wf.run (h : queue.Wf) (hrun : queue.run ops = some next) : next.Wf :=
  exec_preserves (fun _ _ _ hwf hstep => hwf.step hstep) h hrun

/-- A sequence of operations whose acks are all for bytes handed out keeps the ack position inside
them. -/
theorem AckInside.run (h : queue.AckInside) (hwf : queue.Wf)
    (hrun : queue.run ops = some next) (hsent : queue.acksSent ops = true) :
    next.AckInside := by
  induction ops generalizing queue with
  | nil => exact some.inj hrun ▸ h
  | cons _ _ ih =>
    obtain ⟨after, hstep, hrest⟩ := exec_cons hrun
    rw [acksSent, hstep, all_some, Bool.and_eq_true] at hsent
    exact ih (h.step hwf hstep hsent.1) (hwf.step hstep) hrest hsent.2

/-- Every sequence of operations on a new queue, with any acks and sacks, that makes no fill through the
dangling pointer is defined, and the accounting holds after it; if no ack is for bytes that were not
handed out, every block ends above the first unacknowledged position and only the first one may start
below it. -/
theorem run_consistent (streamPos : Nat) (config : BdtPackageConnectionConfig)
    (ops : List SendQueueOp)
    (hfills : StepsMeet SendQueue.step (fun queue op => ¬ queue.FillsDangling op)
      (create streamPos config) ops) :
    ∃ queue, (create streamPos config).run ops = some queue ∧ queue.Consistent ∧
      ((create streamPos config).acksSent ops = true → queue.Bounded) := by
  have hnew : (create streamPos config).Wf := wf_create streamPos config
  have hinside : (create streamPos config).AckInside :=
    ⟨Nat.le_refl _, by simp [create, SendContext.blocks]⟩
  obtain ⟨queue, hrun⟩ := hnew.run_defined_iff.mpr hfills
  have hwf : queue.Wf := hnew.run hrun
  exact ⟨queue, hrun, hwf.consistent, fun hsent => (hinside.run hnew hrun hsent).bounded hwf⟩

/-- Ten bytes are sent in one block, and the peer acknowledges four of them. -/
def partialAckOps : List SendQueueOp :=
  [.addBuffer (List.replicate 10 0) 0, .fillPayload 0, .confirmRange 5 none]

/-- The queue after the partial ack holds a block that starts below the ack position. -/
theorem partialAck_run : ((create 1 pkgConConfig).run partialAckOps).any (fun queue =>
    queue.sendContext.blocks.any fun b => b.startStreamPos < queue.sendContext.ackStreamPos) = true := by
  decide +kernel

/-- The accounting holds there, and the block is the first one. -/
theorem partial_ack_consistent :
    ∃ queue, (create 1 pkgConConfig).run partialAckOps = some queue ∧
      queue.Consistent ∧ queue.Bounded := by
  obtain ⟨queue, hrun, _⟩ := exists_of_any partialAck_run
  obtain ⟨next, hnext, hconsistent, hbounded⟩ := run_consistent 1 pkgConConfig partialAckOps
    ((wf_create 1 pkgConConfig).run_defined_iff.mp ⟨queue, hrun⟩)
  exact ⟨next, hnext, hconsistent, hbounded (by decide +kernel)⟩

/-- A partial ack leaves a block that starts below the first unacknowledged position, although the
peer only acknowledges bytes that were sent. -/
theorem partial_ack_starts_below :
    ¬ ∀ (ops : List SendQueueOp) (queue : SendQueue), (create 1 pkgConConfig).acksSent ops = true →
      (create 1 pkgConConfig).run ops = some queue →
      ∀ b ∈ queue.sendContext.blocks, queue.sendContext.ackStreamPos ≤ b.startStreamPos ∧
        b.endStreamPos ≤ queue.sendContext.streamPos := by
  intro h
  obtain ⟨queue, hrun, hany⟩ := exists_of_any partialAck_run
  obtain ⟨b, hb, hlt⟩ := List.any_eq_true.mp hany
  have hle := (h partialAckOps queue (by decide +kernel) hrun b hb).1
  simp only [decide_eq_true_eq] at hlt
  omega

end SendQueue

end Bdt
