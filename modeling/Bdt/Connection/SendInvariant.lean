import Bdt.Connection.SendAccounting
import Bdt.Connection.SendLayout

/-!
# The invariant of the send queue

`SendQueue.Wf` joins the accounting of the blocks and the layout of the buffers. Every operation of
the queue keeps it, whatever ack and sack the peer sends, as long as the caller fills a package only
when a whole mtu fits into the 32-bit window (`SendQueue.WindowOpen`).
-/

namespace Bdt

open Base SendQueueSendBlock List

/-! ## Sending, resending and timing out blocks -/

namespace Parted

theorem moveLostToFlight {flight lost : List SendQueueSendBlock} {block : SendQueueSendBlock}
    (h : Parted flight (block :: lost)) (now : Nat) :
    Parted (SendContext.moveLostToFlight { block with sendTime := now } flight) lost := by
  have hproper : block.Proper := h.proper block (by simp)
  have hlost := pairwise_cons.mp h.lost_sorted
  have hmem : ∀ b, b ∈ SendContext.moveLostToFlight { block with sendTime := now } flight ↔
      b = { block with sendTime := now } ∨ b ∈ flight := fun b => mem_insertBy
  refine ⟨?_, ?_, hlost.2, ?_⟩
  · intro b hb
    rcases mem_append.mp hb with hb | hb
    · rcases (hmem b).mp hb with rfl | hb
      · exact hproper
      · exact h.proper b (by simp [hb])
    · exact h.proper b (by simp [hb])
  · refine pairwise_insertBy ?_ h.flight_sorted ?_ ?_
    · intro a ha b _ hxa hab
      exact Before.trans hxa (h.proper a (by simp [ha])) hab
    · intro y hy hstop
      have hy' := h.apart y hy block (by simp)
      exact hy'.symm.before_of_start_le (h.proper y (by simp [hy])) (by simp at hstop; omega)
    · intro y hy hstop
      have hy' := h.apart y hy block (by simp)
      exact hy'.before_of_start_le hproper (by simp at hstop; omega)
  intro f hf l hl
  rcases (hmem f).mp hf with rfl | hf
  · exact .inl (hlost.1 l hl)
  · exact h.apart f hf l (by simp [hl])

end Parted

theorem SendContext.moveFlightToLost_perm (blocks queue : List SendQueueSendBlock) :
    (SendContext.moveFlightToLost blocks queue).Perm (blocks ++ queue) := by
  induction blocks generalizing queue with
  | nil => exact .refl _
  | cons b _ ih =>
    refine perm_middle.trans (.cons b ?_)
    refine (List.Perm.append_left _ (ih _)).trans ?_
    refine (perm_append_comm_assoc _ _ _).trans (List.Perm.append_left _ ?_)
    rw [takeWhile_append_dropWhile]

/-- `MoveFlightToLost` merges two ordered lists whose blocks do not overlap. -/
theorem SendContext.moveFlightToLost_sorted {blocks queue : List SendQueueSendBlock}
    (h : Parted blocks queue) : (SendContext.moveFlightToLost blocks queue).Pairwise Before := by
  induction blocks generalizing queue with
  | nil => exact h.lost_sorted
  | cons b blocks ih =>
    have hb : b.Proper := h.proper b (by simp)
    have hblocks := pairwise_cons.mp h.flight_sorted
    have hsplit := h.lost_sorted
    rw [← takeWhile_append_dropWhile
      (p := fun c : SendQueueSendBlock => !decide (b.endStreamPos ≤ c.startStreamPos)) (l := queue)] at hsplit
    obtain ⟨hfront, hback, hcross⟩ := pairwise_append.mp hsplit
    have hsub : ∀ c ∈ queue.dropWhile (fun c => !decide (b.endStreamPos ≤ c.startStreamPos)),
        c ∈ queue := fun c hc => (dropWhile_suffix _).subset hc
    -- `b` lies before the part of the queue where the search for the next block goes on
    have hafter : ∀ c ∈ queue.dropWhile (fun c => !decide (b.endStreamPos ≤ c.startStreamPos)),
        b.Before c :=
      after_of_mem_dropWhile (fun c : SendQueueSendBlock => decide (b.endStreamPos ≤ c.startStreamPos))
        (fun a ha c _ hba hac => hba.trans (h.proper a (by simp [ha])) hac) h.lost_sorted
        (fun c _ hstop => by simpa [Before] using hstop)
    have hbefore : ∀ c ∈ queue.takeWhile (fun c => !decide (b.endStreamPos ≤ c.startStreamPos)),
        c.Before b := by
      intro c hc
      have hmem : c ∈ queue := (List.takeWhile_prefix _).subset hc
      have hgo := not_stop_of_mem_takeWhile (fun c : SendQueueSendBlock =>
        decide (b.endStreamPos ≤ c.startStreamPos)) hc
      exact (h.apart b (by simp) c hmem).resolve_left (by simpa [Before] using hgo)
    have hrest : Parted blocks
        (queue.dropWhile (fun c => !decide (b.endStreamPos ≤ c.startStreamPos))) :=
      ⟨fun c hc => h.proper c (by
          rcases mem_append.mp hc with hc | hc
          · simp [hc]
          · simp [hsub c hc]),
        hblocks.2, hback, fun f hf l hl => h.apart f (by simp [hf]) l (hsub l hl)⟩
    have hmem : ∀ c, c ∈ SendContext.moveFlightToLost blocks
        (queue.dropWhile (fun c => !decide (b.endStreamPos ≤ c.startStreamPos))) →
        c ∈ blocks ∨ c ∈ queue.dropWhile (fun c => !decide (b.endStreamPos ≤ c.startStreamPos)) :=
      fun c hc => by simpa using (SendContext.moveFlightToLost_perm _ _).mem_iff.mp hc
    refine pairwise_append.mpr ⟨hfront, pairwise_cons.mpr ⟨?_, ih hrest⟩, ?_⟩
    · intro c hc
      exact (hmem c hc).elim (hblocks.1 c) (hafter c)
    intro a ha c hc
    rcases mem_cons.mp hc with rfl | hc
    · exact hbefore a ha
    · rcases hmem c hc with hc | hc
      · exact (hbefore a ha).trans hb (hblocks.1 c hc)
      · exact hcross a ha c hc

namespace SendContext

/-- An operation that neither drops nor makes up blocks, except for their send times. -/
def SameRanges (before after : SendContext) : Prop :=
  ∀ b ∈ after.blocks, ∃ c ∈ before.blocks, b = { c with sendTime := b.sendTime }

variable {ctx : SendContext}

/-- Sending a lost block again keeps the accounting. -/
theorem Counted.resend (h : ctx.Counted) {block : SendQueueSendBlock}
    {lostRest : List SendQueueSendBlock} (hlost : ctx.lostBlocks = block :: lostRest) (now : Nat) :
    (ctx.resend block lostRest now).Counted ∧ SameRanges ctx (ctx.resend block lostRest now) := by
  have ⟨hf, hl, hs⟩ := (⟨h.flight_eq, h.lost_eq, h.small⟩ : _ ∧ _ ∧ _)
  rw [hlost, totalLen_cons] at hl
  have hle : block.len ≤ ctx.lost := by omega
  have hflight : (ctx.resend block lostRest now).flight = ctx.flight + block.len :=
    word_of_lt (by omega)
  have hlostc : (ctx.resend block lostRest now).lost = ctx.lost - block.len := rfl
  have hlen : totalLen (moveLostToFlight { block with sendTime := now } ctx.flightBlocks) =
      block.len + totalLen ctx.flightBlocks :=
    (totalLen_perm (insertBy_perm _ _ _)).trans (totalLen_cons _ _)
  refine ⟨⟨?_, ?_, ?_, ?_, ?_⟩, ?_⟩
  · rw [hflight]
    show _ = totalLen (moveLostToFlight _ _)
    omega
  · rw [hlostc]
    show _ = totalLen lostRest
    omega
  · rw [hflight, hlostc]
    omega
  · exact (subLost_underflow (ctx.addFlight block.len) hle).trans h.underflow
  · exact (hlost ▸ h.parted).moveLostToFlight now
  intro b hb
  rcases mem_append.mp hb with hb | hb
  · rcases mem_insertBy.mp hb with rfl | hb
    · exact ⟨block, by simp [blocks, hlost], rfl⟩
    · exact ⟨b, by simp [blocks, hb], rfl⟩
  · exact ⟨b, mem_append.mpr (.inr (by rw [hlost]; exact mem_cons_of_mem _ hb)), rfl⟩

/-- Sending a block that lies behind all the others keeps the accounting. -/
theorem Counted.sendNew (h : ctx.Counted) {block : SendQueueSendBlock}
    (hlost : ctx.lostBlocks = []) (hproper : block.Proper)
    (hbefore : ∀ b ∈ ctx.blocks, b.Before block) (hsmall : ctx.flight + block.len < 2 ^ 32)
    (now : Nat) : (ctx.sendNew block now).Counted := by
  have ⟨hf, hl⟩ := (⟨h.flight_eq, h.lost_eq⟩ : _ ∧ _)
  rw [hlost, totalLen_nil] at hl
  have hflight : (ctx.sendNew block now).flight = ctx.flight + block.len := word_of_lt hsmall
  refine ⟨?_, ?_, ?_, h.underflow, ?_⟩
  · rw [hflight]
    show _ = totalLen (ctx.flightBlocks ++ [{ block with sendTime := now }])
    have hlen := len_sendTime block now
    rw [totalLen_append, totalLen_cons, totalLen_nil]
    omega
  · exact h.lost_eq
  · rw [hflight]
    show ctx.flight + block.len + ctx.lost < 2 ^ 32
    omega
  · exact h.parted.flight_snoc hproper hbefore

theorem totalLen_pos {blocks : List SendQueueSendBlock} (hproper : ∀ b ∈ blocks, b.Proper)
    (hne : blocks ≠ []) : 0 < totalLen blocks := by
  cases blocks with
  | nil => exact absurd rfl hne
  | cons b =>
    have hb : b.Proper := hproper b (by simp)
    simp only [totalLen_cons, SendQueueSendBlock.len, Proper] at *
    omega

/-- Marking blocks timed out moves them from the flight list to the lost list. -/
theorem Counted.markRangeTimeout (h : ctx.Counted) (force : Bool) (rto now : Nat) :
    (ctx.markRangeTimeout force rto now).1.Counted ∧
    (∀ b, b ∈ (ctx.markRangeTimeout force rto now).1.blocks ↔ b ∈ ctx.blocks) ∧
    (ctx.markRangeTimeout force rto now).1.flight + (ctx.markRangeTimeout force rto now).2 =
      ctx.flight ∧
    (ctx.markRangeTimeout force rto now).1.lost =
      ctx.lost + (ctx.markRangeTimeout force rto now).2 := by
  have ⟨hf, hl, hs⟩ := (⟨h.flight_eq, h.lost_eq, h.small⟩ : _ ∧ _ ∧ _)
  have hperm : (ctx.flightBlocks.filter (isTimeout force rto now) ++
      ctx.flightBlocks.filter (fun b => !isTimeout force rto now b)).Perm ctx.flightBlocks :=
    filter_append_perm _ _
  have hsum := totalLen_perm hperm
  rw [totalLen_append] at hsum
  have hword : word 32 ((ctx.flightBlocks.filter (isTimeout force rto now)).map
      SendQueueSendBlock.len).sum = totalLen (ctx.flightBlocks.filter (isTimeout force rto now)) :=
    word_of_lt (show totalLen _ < _ by omega)
  have hparted : Parted (ctx.flightBlocks.filter (isTimeout force rto now)) ctx.lostBlocks :=
    ⟨fun b hb => h.parted.proper b (by
        rcases mem_append.mp hb with hb | hb
        · exact mem_append.mpr (.inl ((mem_filter.mp hb).1))
        · exact mem_append.mpr (.inr hb)),
      h.parted.flight_sorted.filter _, h.parted.lost_sorted,
      fun f hf l hl => h.parted.apart f (mem_filter.mp hf).1 l hl⟩
  simp only [SendContext.markRangeTimeout, hword]
  split
  case isTrue hpos =>
    have hmoved := moveFlightToLost_perm (ctx.flightBlocks.filter (isTimeout force rto now))
      ctx.lostBlocks
    have hlostLen := totalLen_perm hmoved
    rw [totalLen_append] at hlostLen
    obtain ⟨hflight, hunder⟩ := subFlight_of_le
      ({ ctx with
        flightBlocks := ctx.flightBlocks.filter (fun b => !isTimeout force rto now b)
        lostBlocks := moveFlightToLost (ctx.flightBlocks.filter (isTimeout force rto now))
          ctx.lostBlocks })
      (totalLen (ctx.flightBlocks.filter (isTimeout force rto now)))
      (by simp only; omega) (by simp only; omega)
    refine ⟨⟨?_, ?_, ?_, hunder.trans h.underflow, ?_⟩, ?_, ?_, rfl⟩
    · simp only [addLost, hflight, subFlight_flightBlocks]
      omega
    · simp only [addLost, subFlight_lostBlocks, subFlight_lost]
      omega
    · simp only [addLost, hflight, subFlight_lost]
      omega
    · refine ⟨fun b hb => ?_, h.parted.flight_sorted.filter _, moveFlightToLost_sorted hparted, ?_⟩
      · rcases mem_append.mp hb with hb | hb
        · exact h.parted.proper b (by simp [(mem_filter.mp hb).1])
        · exact hparted.proper b (hmoved.mem_iff.mp hb)
      intro f hf l hl
      obtain ⟨hf, hkeep⟩ := mem_filter.mp hf
      rcases mem_append.mp (hmoved.mem_iff.mp hl) with hl | hl
      · -- a block that stays and a block that moves are two blocks of one ordered list
        obtain ⟨hl, hmove⟩ := mem_filter.mp hl
        refine (h.parted.eq_or_apart f (by simp [hf]) l (by simp [hl])).resolve_left ?_
        rintro rfl
        simp [hmove] at hkeep
      · exact h.parted.apart f hf l hl
    · intro b
      simp only [blocks, addLost, subFlight_flightBlocks, subFlight_lostBlocks, mem_append,
        hmoved.mem_iff, ← hperm.mem_iff]
      tauto
    · simp only [addLost, hflight]
      omega
  case isFalse hzero =>
  have hnone : ctx.flightBlocks.filter (isTimeout force rto now) = [] := by
    by_contra hne
    have := totalLen_pos (fun b hb => hparted.proper b (by simp [hb])) hne
    omega
  have hall : ctx.flightBlocks.filter (fun b => !isTimeout force rto now b) = ctx.flightBlocks :=
    filter_eq_self.mpr fun b hb => by simpa using filter_eq_nil_iff.mp hnone b hb
  rw [hall, hnone]
  exact ⟨h, fun b => Iff.rfl, rfl, rfl⟩

theorem markRangeTimeout_fields (ctx : SendContext) (force : Bool) (rto now : Nat) :
    (ctx.markRangeTimeout force rto now).1.ackStreamPos = ctx.ackStreamPos ∧
    (ctx.markRangeTimeout force rto now).1.streamPos = ctx.streamPos ∧
    (ctx.markRangeTimeout force rto now).1.latestAckStreamPos = ctx.latestAckStreamPos ∧
    (ctx.markRangeTimeout force rto now).1.prevDupAckStreamPos = ctx.prevDupAckStreamPos := by
  simp only [SendContext.markRangeTimeout]
  split <;> exact ⟨rfl, rfl, rfl, rfl⟩

end SendContext

/-! ## The invariant -/

namespace SendQueue

/-- The send queue is consistent. The buffers are laid out, or `curr` was left dangling by an ack
for bytes that were never sent. -/
structure Wf (queue : SendQueue) : Prop where
  mtu_pos : 0 < queue.mtu
  counted : queue.sendContext.Counted
  ordered : queue.sendContext.AckOrdered
  inside : ∀ b ∈ queue.sendContext.blocks, b.endStreamPos ≤ queue.sendContext.streamPos
  short : ∀ b ∈ queue.sendContext.blocks, b.len ≤ queue.mtu
  layout : queue.sendingBuffers.curr = .dangling ∨
    queue.sendingBuffers.Laid queue.sendContext.streamPos
  unSend : queue.sendContext.streamPos + queue.sendingBuffers.unSendLength =
    queue.sendingBuffers.streamPos
  noUnderflow : queue.sendingBuffers.underflow = false

/-- The window of the caller, a 32-bit word, has room for a whole mtu beside the bytes in flight. -/
def WindowOpen (queue : SendQueue) : Prop :=
  queue.getFilght + queue.mtu < 2 ^ 32

instance (queue : SendQueue) : Decidable queue.WindowOpen :=
  inferInstanceAs (Decidable (_ < _))

theorem wf_create (streamPos : Nat) (config : BdtPackageConnectionConfig) :
    (create streamPos config).Wf where
  mtu_pos := config.mtu_pos
  counted := ⟨rfl, rfl, by simp [create], rfl, Parted.nil⟩
  ordered := ⟨Nat.zero_le _, Nat.zero_le _⟩
  inside := by simp [create, SendContext.blocks]
  short := by simp [create, SendContext.blocks]
  layout := .inr (SendingBuffers.laid_empty streamPos)
  unSend := rfl
  noUnderflow := rfl

namespace Wf

variable {queue queue' : SendQueue}

section

variable (h : queue.Wf)
include h

theorem addBuffer {data : List UInt8} {userData : Nat}
    (ha : queue.addBuffer data userData = some queue') : queue'.Wf := by
  unfold SendQueue.addBuffer at ha
  split at ha
  · cases ha
  case isFalse hdata =>
  cases ha
  refine { h with layout := ?_, unSend := ?_ }
  · refine h.layout.imp (fun hdang => ?_) (fun hlaid => hlaid.addBuffer hdata userData)
    simp [SendingBuffers.addBuffer, hdang]
  · have := h.unSend
    simp only [SendingBuffers.addBuffer]
    omega

/-- An operation that only rearranges or removes blocks. -/
theorem withContext {ctx : SendContext} (hcounted : ctx.Counted)
    (hordered : ctx.AckOrdered) (hpos : ctx.streamPos = queue.sendContext.streamPos)
    (hknown : ∀ b ∈ ctx.blocks, b ∈ queue.sendContext.blocks) :
    ({ queue with sendContext := ctx } : SendQueue).Wf where
  mtu_pos := h.mtu_pos
  counted := hcounted
  ordered := hordered
  inside := fun b hb => hpos ▸ h.inside b (hknown b hb)
  short := fun b hb => h.short b (hknown b hb)
  layout := hpos ▸ h.layout
  unSend := hpos ▸ h.unSend
  noUnderflow := h.noUnderflow

theorem confirmRange (ackStreamPos : Nat)
    (sackArray : Option (List BdtStreamRange)) : (queue.confirmRange ackStreamPos sackArray).1.Wf := by
  unfold SendQueue.confirmRange
  split
  · exact h
  · obtain ⟨hconf, _, _⟩ := h.counted.confirm h.ordered ackStreamPos sackArray
    exact h.withContext hconf.counted hconf.ordered hconf.streamPos hconf.known

theorem markRangeTimeout (force : Bool) (rto now : Nat) :
    (queue.markRangeTimeout force rto now).1.Wf := by
  obtain ⟨hcounted, hmem, _, _⟩ := h.counted.markRangeTimeout force rto now
  obtain ⟨hack, hpos, hlatest, hprev⟩ :=
    SendContext.markRangeTimeout_fields queue.sendContext force rto now
  have hordered : (queue.sendContext.markRangeTimeout force rto now).1.AckOrdered :=
    ⟨by rw [hlatest, hack]; exact h.ordered.latest_le, by rw [hprev, hack]; exact h.ordered.prev_le⟩
  exact h.withContext hcounted hordered hpos fun b => (hmem b).mp

theorem popCompleteBuffers : queue.popCompleteBuffers.2.Wf := by
  refine { h with layout := ?_ }
  rcases h.layout with hdang | hlaid
  · obtain ⟨_, _, _, _, _, _, _, hcurr⟩ := SendingBuffers.popLoop_cases
      queue.sendContext.ackStreamPos queue.sendingBuffers.buffers queue.sendingBuffers.curr
    exact .inl (hcurr.elim And.left fun h => h.1.trans hdang)
  obtain ⟨popped, stay, curr, hpop, _, _, _, hlaid⟩ :=
    hlaid.pop queue.sendContext.ackStreamPos
  simp only [SendQueue.popCompleteBuffers, hpop]
  exact hlaid.imp And.left id

theorem popAllBuffers : queue.popAllBuffers.2.Wf := by
  refine { h with layout := ?_ }
  by_cases hnull : queue.sendingBuffers.curr = .null
  · -- a null cursor means that every byte is cut, so no buffer is missed
    have hlaid := h.layout.resolve_left (by simp [hnull])
    have hall : ∀ b ∈ queue.sendingBuffers.buffers,
        b.endStreamPos ≤ queue.sendContext.streamPos := by
      rcases SendingBuffers.cursorAt_cases queue.sendContext.streamPos
        queue.sendingBuffers.buffers with ⟨_, hall⟩ | ⟨b, _, _, hbuf, _⟩
      · exact hall
      · rw [← hlaid.curr, hnull] at hbuf
        cases hbuf
    simpa [SendQueue.popAllBuffers, hnull] using hlaid.drop (append_nil _).symm hall
  · exact .inl (if_neg hnull)

/-- The three outcomes of `SendQueueFillPayload`: it resends the first lost block, cuts a new block
at the send position, or finds nothing to send. -/
theorem fillPayload_cases {now : Nat} {sent : Bool} {fill : Fill}
    (hfill : queue.fillPayload now = some (sent, fill, queue')) :
    (∃ block lostRest, queue.sendContext.lostBlocks = block :: lostRest ∧ sent = true ∧
      fill = { streamPos := block.startStreamPos, payload := some block.data } ∧
      queue' = { queue with sendContext := queue.sendContext.resend block lostRest now }) ∨
    (queue.sendContext.lostBlocks = [] ∧ sent = true ∧
      queue.sendingBuffers.Laid queue.sendContext.streamPos ∧
      ∃ b ∈ queue.sendingBuffers.buffers,
        b.startStreamPos ≤ queue.sendContext.streamPos ∧
        queue.sendContext.streamPos < b.endStreamPos ∧
        b.offsetStreamPos = queue.sendContext.streamPos ∧
        fill = { streamPos := (SendingBuffers.cutBlock b queue.mtu).startStreamPos
                 payload := some (SendingBuffers.cutBlock b queue.mtu).data } ∧
        (queue.sendingBuffers.advance b queue.mtu).Laid
          (SendingBuffers.cutBlock b queue.mtu).endStreamPos ∧
        queue' = { queue with
          sendingBuffers := queue.sendingBuffers.advance b queue.mtu
          sendContext := queue.sendContext.sendNew (SendingBuffers.cutBlock b queue.mtu) now }) ∨
    (queue.sendContext.lostBlocks = [] ∧ queue.sendingBuffers.unSendLength = 0 ∧ sent = false ∧
      fill = { streamPos := queue.sendContext.streamPos, payload := none } ∧ queue' = queue) := by
  unfold SendQueue.fillPayload at hfill
  cases hlost : queue.sendContext.lostBlocks with
  | cons block lostRest =>
    simp only [hlost, Option.some.injEq, Prod.mk.injEq] at hfill
    obtain ⟨rfl, rfl, rfl⟩ := hfill
    exact .inl ⟨block, lostRest, rfl, rfl, rfl, rfl⟩
  | nil =>
    right
    rcases h.layout with hdang | hlaid
    · -- a dangling cursor cuts nothing
      rw [SendingBuffers.generateBlock_dangling _ hdang, hlost] at hfill
      by_cases hz : queue.sendingBuffers.unSendLength = 0
      · simp only [if_pos hz, Option.some.injEq, Prod.mk.injEq] at hfill
        obtain ⟨rfl, rfl, rfl⟩ := hfill
        exact .inr ⟨rfl, hz, rfl, rfl, rfl⟩
      · simp [if_neg hz] at hfill
    rcases hlaid.generateBlock h.mtu_pos with
      ⟨hz, hgen⟩ | ⟨b, hb, hstart, hend, hoffset, hgen, hlaid'⟩
    · simp only [hgen, hlost, Option.some.injEq, Prod.mk.injEq] at hfill
      obtain ⟨rfl, rfl, rfl⟩ := hfill
      exact .inr ⟨rfl, hz, rfl, rfl, rfl⟩
    · simp only [hgen, hlost, Option.some.injEq, Prod.mk.injEq] at hfill
      obtain ⟨rfl, rfl, rfl⟩ := hfill
      exact .inl ⟨rfl, rfl, hlaid, b, hb, hstart, hend, hoffset, rfl, hlaid', rfl⟩

/-- A block cut at the send position is not empty, no longer than the mtu, and starts there. -/
theorem cutBlock_range {b : SendQueueSendBuffer}
    (hend : queue.sendContext.streamPos < b.endStreamPos)
    (hoffset : b.offsetStreamPos = queue.sendContext.streamPos) :
    (SendingBuffers.cutBlock b queue.mtu).startStreamPos = queue.sendContext.streamPos ∧
    (SendingBuffers.cutBlock b queue.mtu).Proper ∧
    (SendingBuffers.cutBlock b queue.mtu).len ≤ queue.mtu ∧
    (SendingBuffers.cutBlock b queue.mtu).endStreamPos =
      queue.sendContext.streamPos + (SendingBuffers.cutBlock b queue.mtu).len := by
  have hmtu := h.mtu_pos
  have hstart : (SendingBuffers.cutBlock b queue.mtu).startStreamPos = queue.sendContext.streamPos :=
    hoffset
  have hcut : (SendingBuffers.cutBlock b queue.mtu).endStreamPos =
      queue.sendContext.streamPos + min (b.endStreamPos - queue.sendContext.streamPos) queue.mtu := by
    rw [← hoffset]
    rfl
  refine ⟨hstart, ?_, ?_, ?_⟩ <;> simp only [SendQueueSendBlock.len, Proper] <;> omega

theorem fillPayload (hwindow : queue.WindowOpen) {now : Nat} {sent : Bool}
    {fill : Fill} (hfill : queue.fillPayload now = some (sent, fill, queue')) : queue'.Wf := by
  rcases h.fillPayload_cases hfill with
    ⟨block, lostRest, hlost, _, _, rfl⟩ |
    ⟨hlost, _, hlaid, b, _, hstart, hend, hoffset, _, hlaid', rfl⟩ | ⟨_, _, _, _, rfl⟩
  · obtain ⟨hcounted, hranges⟩ := h.counted.resend hlost now
    refine { h with
      counted := hcounted
      ordered := ⟨h.ordered.latest_le, h.ordered.prev_le⟩
      inside := ?_
      short := ?_ }
    · intro c hc
      obtain ⟨d, hd, heq⟩ := hranges c hc
      rw [heq]
      exact h.inside d hd
    intro c hc
    obtain ⟨d, hd, heq⟩ := hranges c hc
    rw [heq]
    exact h.short d hd
  · obtain ⟨hcut, hproper, hlen, hcutEnd⟩ := h.cutBlock_range hend hoffset
    have hcounted := h.counted.sendNew hlost hproper
      (fun c hc => show _ ≤ _ from hcut ▸ h.inside c hc)
      (by unfold WindowOpen getFilght at hwindow; omega) now
    rw [hcutEnd] at hlaid'
    refine { h with
      counted := hcounted
      ordered := ⟨h.ordered.latest_le, h.ordered.prev_le⟩
      inside := ?_
      short := ?_
      layout := .inr hlaid'
      unSend := hlaid'.unSend
      noUnderflow := hlaid'.underflow }
    all_goals
      intro c hc
      have hc' : c ∈ queue.sendContext.blocks ∨
          c = { SendingBuffers.cutBlock b queue.mtu with sendTime := now } := by
        simp only [SendContext.blocks, SendContext.sendNew, SendContext.addFlight, mem_append,
          mem_singleton] at hc ⊢
        tauto
    · have hpos : (queue.sendContext.sendNew (SendingBuffers.cutBlock b queue.mtu) now).streamPos =
          queue.sendContext.streamPos + (SendingBuffers.cutBlock b queue.mtu).len := rfl
      rcases hc' with hc' | rfl
      · have := h.inside c hc'
        simp only [hpos]
        omega
      · simp only [hpos]
        omega
    · rcases hc' with hc' | rfl
      · exact h.short c hc'
      · exact hlen
  · exact h

end

end Wf

end SendQueue

end Bdt
