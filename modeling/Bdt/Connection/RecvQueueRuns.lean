import Bdt.Connection.RecvInvariant
import Mathlib.Data.List.Induction
import Mathlib.Data.List.TakeWhile

/-!
# Runs of the receive queue

`RecvRun` applies a sequence of operations to a new receive queue and notes what was popped and which
ranges were saved. `delivery` says what the users get when all data comes from one stream: a prefix
of it, in order, without an assertion failing. `contiguous_iff` is about `ackStreamPos`: it is the
end of the contiguous prefix of the ranges saved, as long as no range in order reaches more than one
block (`RecvQueueOp.Overreaches`). `RecvQueueUpdateStreamPos` absorbs only the first block.
-/

namespace Bdt

open Base List

/-- The operations of the users and of the received packages on a receive queue. -/
inductive RecvQueueOp where
  | addBuffer (address : Nat) (data : List UInt8) (userData : Nat)
  | writeData (streamPos : Nat) (payload : List UInt8)
  | popCompleteBuffers (force : Bool)
  deriving DecidableEq, Repr

/-! ## The assertions -/

namespace RecvStream

/-- The assertions of the copy loop. -/
def copyAsserts : Nat → Nat → List UInt8 → List RecvQueueRecvBuffer → Bool
  | _, _, _, [] => true
  | bufferBeginPos, streamPos, data, buffer :: rest =>
    if data = [] then true
    else
      let nCopy := min data.length (buffer.len - (streamPos - bufferBeginPos))
      decide (max buffer.endStreamPos (streamPos + nCopy) ≤ bufferBeginPos + buffer.len) &&
        (if data.drop nCopy = [] then
          decide (streamPos + nCopy ≤ bufferBeginPos + buffer.len)
        else decide (streamPos + nCopy = bufferBeginPos + buffer.len)) &&
        copyAsserts (bufferBeginPos + buffer.len) (streamPos + nCopy) (data.drop nCopy) rest

/-- The assertions of the copy loop, from the buffer that the search finds. -/
def saveAsserts : Nat → Nat → List UInt8 → List RecvQueueRecvBuffer → Bool
  | _, _, _, [] => true
  | bufferBeginPos, streamPos, data, buffer :: rest =>
    if bufferBeginPos ≤ streamPos ∧ streamPos < bufferBeginPos + buffer.len then
      copyAsserts bufferBeginPos streamPos data (buffer :: rest)
    else saveAsserts (bufferBeginPos + buffer.len) streamPos data rest

/-- The assertions of `RecvQueueSavePayload`. -/
def savePayloadAsserts (s : RecvStream) (streamPos : Nat) (data : List UInt8) : Bool :=
  if streamPos < s.readStreamPos then
    let skip := s.readStreamPos - streamPos
    if skip < data.length then
      saveAsserts s.readStreamPos s.readStreamPos (data.drop skip) s.buffers
    else true
  else saveAsserts s.readStreamPos streamPos data s.buffers

/-- The assertion of the loop of `RecvQueuePopCompleteBuffers`. -/
def popAsserts (force : Bool) (ackStreamPos endStreamPos : Nat) :
    Nat → List RecvQueueRecvBuffer → Bool
  | _, [] => true
  | readStreamPos, buffer :: rest =>
    decide (buffer.endStreamPos ≤ endStreamPos) &&
      if (buffer.endStreamPos = readStreamPos + buffer.len ∧
          buffer.endStreamPos ≤ ackStreamPos) ∨
          (force ∧ buffer.endStreamPos ≠ 0 ∧ endStreamPos ≤ ackStreamPos) then
        popAsserts force ackStreamPos endStreamPos buffer.endStreamPos rest
      else true

variable {expected : Nat → UInt8 → Prop} {covered : Nat → Prop} {start : Nat}
  {buffers : List RecvQueueRecvBuffer}

variable {streamPos : Nat} {data : List UInt8}

theorem Laid.copyAsserts (h : Laid expected covered start buffers) (hstart : start ≤ streamPos)
    (hin : ∀ b ∈ buffers.head?, streamPos < start + b.len) :
    copyAsserts start streamPos data buffers = true := by
  induction buffers generalizing start streamPos data with
  | nil => rfl
  | cons b rest ih =>
    have hlt : streamPos < start + b.len := hin b rfl
    unfold RecvStream.copyAsserts
    split
    · rfl
    case isFalse hne =>
    obtain ⟨_, hend, _, hrest⟩ := h
    simp only
    generalize hcopy : min data.length (b.len - (streamPos - start)) = nCopy
    have hfit : streamPos + nCopy ≤ start + b.len := by omega
    have hend : max b.endStreamPos (streamPos + nCopy) ≤ start + b.len := by omega
    rw [decide_eq_true hend, Bool.true_and]
    split
    case isTrue hnil =>
      rw [hnil, decide_eq_true hfit, Bool.true_and]
      cases rest <;> simp [RecvStream.copyAsserts]
    case isFalse hleft =>
    have hnext : streamPos + nCopy = start + b.len := by
      by_contra hshort
      exact hleft (drop_eq_nil_of_le (by omega))
    rw [decide_eq_true hnext, Bool.true_and]
    refine ih hrest (Nat.le_of_eq hnext.symm) fun c hc => ?_
    have hcpos := len_pos ((hrest.endStreamPos_cases c (List.mem_of_mem_head? hc)).1)
    omega

theorem Laid.saveAsserts (h : Laid expected covered start buffers) (hstart : start ≤ streamPos) :
    saveAsserts start streamPos data buffers = true := by
  induction buffers generalizing start with
  | nil => rfl
  | cons _ _ ih =>
    unfold RecvStream.saveAsserts
    split
    case isTrue hhere =>
      refine h.copyAsserts hstart fun c hc => ?_
      cases hc
      exact hhere.2
    case isFalse hlater => exact ih h.2.2.2 (by omega)

theorem Marked.popAsserts {endStreamPos : Nat} (h : Marked endStreamPos buffers) (force : Bool)
    (ackStreamPos start : Nat) :
    popAsserts force ackStreamPos endStreamPos start buffers = true := by
  induction buffers generalizing start with
  | nil => rfl
  | cons b _ ih =>
    unfold RecvStream.popAsserts
    rw [decide_eq_true (h b (by simp)), Bool.true_and]
    split
    · exact ih (fun c hc => h c (by simp [hc])) b.endStreamPos
    · rfl

end RecvStream

/-- The assertions that an operation runs into, that of `calcRelaPos` for whatever it compares. -/
def RecvQueueOp.assertsHold (queue : RecvQueue) : RecvQueueOp → Prop
  | .addBuffer _ _ _ => True
  | .writeData streamPos payload =>
    streamPos + payload.length ≤ queue.recvBlock.ackStreamPos ∨ payload = [] ∨
      queue.recvStream.savePayloadAsserts streamPos payload = true ∧
        ∀ baseStart baseEnd otherStart otherEnd,
          calcRelaPosAsserts baseStart baseEnd otherStart otherEnd = true
  | .popCompleteBuffers force =>
    RecvStream.popAsserts force queue.recvBlock.ackStreamPos queue.recvStream.endStreamPos
      queue.recvStream.readStreamPos queue.recvStream.buffers = true

theorem RecvQueue.Wf.assertsHold {expected : Nat → UInt8 → Prop} {queue : RecvQueue}
    (h : queue.Wf expected) (op : RecvQueueOp) : op.assertsHold queue := by
  cases op with
  | addBuffer => trivial
  | writeData =>
    refine .inr (.inr ⟨?_, fun _ _ _ _ => decide_eq_true (by omega)⟩)
    unfold RecvStream.savePayloadAsserts
    split
    · simp only
      split
      · exact h.laid.saveAsserts (Nat.le_refl _)
      · rfl
    case isFalse hunread => exact h.laid.saveAsserts (Nat.not_lt.mp hunread)
  | popCompleteBuffers => exact h.marked.popAsserts _ _ _

/-! ## Runs -/

/-- A receive queue, the buffers popped from it, and the ranges saved in it. -/
structure RecvRun where
  queue : RecvQueue
  popped : List RecvQueueRecvBuffer := []
  saved : List (Nat × Nat) := []
  deriving DecidableEq, Repr

/-- The number of bytes that `RecvQueueWriteData` counts as saved. -/
def RecvQueue.saveLen (queue : RecvQueue) (streamPos : Nat) (payload : List UInt8) : Nat :=
  if streamPos + payload.length ≤ queue.recvBlock.ackStreamPos ∨ payload = [] then 0
  else (queue.recvStream.savePayload streamPos payload).1

theorem RecvQueue.writeData_recvBlock (queue : RecvQueue) (streamPos : Nat) (payload : List UInt8) :
    (queue.writeData streamPos payload).2.recvBlock =
      if queue.saveLen streamPos payload = 0 then queue.recvBlock
      else (queue.recvBlock.updateStreamPos streamPos
        (streamPos + queue.saveLen streamPos payload)).2 := by
  unfold RecvQueue.writeData RecvQueue.saveLen
  by_cases hold : streamPos + payload.length ≤ queue.recvBlock.ackStreamPos
  · simp [hold]
  by_cases hnil : payload = []
  · subst hnil
    simp only [or_true, if_true]
    split <;> rfl
  · simp only [hold, hnil, or_self, if_false]
    split <;> rfl

namespace RecvRun

/-- Apply one operation. -/
def apply (r : RecvRun) : RecvQueueOp → RecvRun
  | .addBuffer address data userData =>
    { r with queue := (r.queue.addBuffer address data userData).getD r.queue }
  | .writeData streamPos payload =>
    { r with
      queue := (r.queue.writeData streamPos payload).2
      saved := r.saved ++ [(streamPos, streamPos + r.queue.saveLen streamPos payload)] }
  | .popCompleteBuffers force =>
    { r with
      queue := (r.queue.popCompleteBuffers force).2
      popped := r.popped ++ (r.queue.popCompleteBuffers force).1 }

/-- Apply a sequence of operations to a new queue. -/
def run (streamPos : Nat) (ops : List RecvQueueOp) : RecvRun :=
  ops.foldl apply { queue := RecvQueue.create streamPos }

theorem run_append (streamPos : Nat) (ops : List RecvQueueOp) (op : RecvQueueOp) :
    run streamPos (ops ++ [op]) = (run streamPos ops).apply op :=
  foldl_concat ..

/-- What every operation preserves, a run preserves. -/
theorem run_induction {streamPos : Nat} (inv : RecvRun → Prop) (good : RecvQueueOp → Prop)
    (hinit : inv { queue := RecvQueue.create streamPos })
    (hstep : ∀ r op, inv r → good op → inv (r.apply op)) {ops : List RecvQueueOp}
    (hops : ∀ op ∈ ops, good op) : inv (run streamPos ops) := by
  induction ops using List.reverseRecOn with
  | nil => exact hinit
  | append_singleton _ op ih =>
    rw [run_append]
    exact hstep _ op (ih fun o ho => hops o (by simp [ho])) (hops op (by simp))

end RecvRun

/-! ## Delivery -/

/-- The operation writes a part of the stream, whose first byte is at `streamPos`, or no data. -/
def RecvQueueOp.FromStream (streamPos : Nat) (stream : List UInt8) : RecvQueueOp → Prop
  | .writeData pos payload => streamPos ≤ pos ∧ Slice stream (pos - streamPos) payload
  | _ => True

/-- The byte of the stream at a position. -/
def InStream (streamPos : Nat) (stream : List UInt8) (pos : Nat) (x : UInt8) : Prop :=
  streamPos ≤ pos ∧ stream[pos - streamPos]? = some x

/-- What was popped lies in one piece from the start to the read position, and the rest is still
consistent. -/
structure RecvRun.Delivered (expected : Nat → UInt8 → Prop) (streamPos : Nat) (r : RecvRun) :
    Prop where
  queue : r.queue.Wf expected
  popped : RecvStream.Popped expected streamPos r.queue.recvStream.readStreamPos r.popped

theorem RecvStream.Consecutive.append {start middle stop : Nat} {left right : List RecvQueueRecvBuffer}
    (hl : RecvStream.Consecutive start left middle) (hr : RecvStream.Consecutive middle right stop) :
    RecvStream.Consecutive start (left ++ right) stop := by
  induction left generalizing start with
  | nil => exact (show start = middle from hl) ▸ hr
  | cons _ _ ih => exact ⟨hl.1, hl.2.1, ih hl.2.2⟩

theorem RecvStream.Popped.append {expected : Nat → UInt8 → Prop} {start middle stop : Nat}
    {left right : List RecvQueueRecvBuffer} (hl : RecvStream.Popped expected start middle left)
    (hr : RecvStream.Popped expected middle stop right) :
    RecvStream.Popped expected start stop (left ++ right) where
  le := Nat.le_trans hl.le hr.le
  consecutive := hl.consecutive.append hr.consecutive
  length := by
    have hle := hl.le
    have hle' := hr.le
    rw [RecvStream.handed_append, length_append, hl.length, hr.length]
    omega
  bytes := by
    intro i x hx
    rw [RecvStream.handed_append] at hx
    by_cases hi : i < middle - start
    · rw [getElem?_append_left (by rw [hl.length]; exact hi)] at hx
      exact hl.bytes i x hx
    have hle := hl.le
    rw [getElem?_append_right (by rw [hl.length]; omega), hl.length] at hx
    have hexp := hr.bytes _ x hx
    rwa [show middle + (i - (middle - start)) = start + i by omega] at hexp
  nonempty := by
    intro b hb
    rcases mem_append.mp hb with hb | hb
    · exact hl.nonempty b hb
    · exact hr.nonempty b hb

namespace RecvRun

variable {expected : Nat → UInt8 → Prop} {streamPos : Nat}

theorem delivered_create (expected : Nat → UInt8 → Prop) (streamPos : Nat) :
    Delivered expected streamPos { queue := RecvQueue.create streamPos } :=
  ⟨RecvQueue.wf_create expected streamPos, RecvStream.popped_nil streamPos⟩

/-- One operation, which writes no other bytes than those expected. -/
theorem Delivered.apply {r : RecvRun} (h : r.Delivered expected streamPos) {op : RecvQueueOp}
    (hop : ∀ pos payload, op = .writeData pos payload →
      ∀ i x, payload[i]? = some x → expected (pos + i) x) :
    (r.apply op).Delivered expected streamPos := by
  cases op with
  | addBuffer address data userData =>
    show Delivered expected streamPos
      { r with queue := (r.queue.addBuffer address data userData).getD r.queue }
    cases hadd : r.queue.addBuffer address data userData with
    | none => exact h
    | some next =>
      refine ⟨h.queue.addBuffer hadd, ?_⟩
      have hread := (RecvQueue.addBuffer_fields hadd).2
      show RecvStream.Popped expected streamPos next.recvStream.readStreamPos r.popped
      rw [hread]
      exact h.popped
  | writeData pos payload =>
    have hpayload := hop pos payload rfl
    obtain ⟨hqueue, hread⟩ := h.queue.writeData hpayload
    refine ⟨hqueue, ?_⟩
    show RecvStream.Popped expected streamPos
      (r.queue.writeData pos payload).2.recvStream.readStreamPos r.popped
    rw [hread]
    exact h.popped
  | popCompleteBuffers force =>
    obtain ⟨hqueue, hpopped⟩ := h.queue.popCompleteBuffers force
    exact ⟨hqueue, h.popped.append hpopped⟩

end RecvRun

/-- For every sequence of operations that write parts of one stream: the users get a prefix of the
stream, each buffer goes on where the one before it ended, the read position stays behind the ack,
and no assertion fails. -/
theorem RecvRun.delivery (streamPos : Nat) (stream : List UInt8) (ops : List RecvQueueOp)
    (hops : ∀ op ∈ ops, op.FromStream streamPos stream) :
    RecvStream.handed (run streamPos ops).popped <+: stream ∧
    RecvStream.Consecutive streamPos (run streamPos ops).popped
      (run streamPos ops).queue.recvStream.readStreamPos ∧
    (run streamPos ops).queue.recvStream.readStreamPos ≤
      (run streamPos ops).queue.recvBlock.ackStreamPos ∧
    ∀ before op, before ++ [op] <+: ops → op.assertsHold (run streamPos before).queue := by
  have hrun : ∀ before, before <+: ops →
      (run streamPos before).Delivered (InStream streamPos stream) streamPos := by
    intro before hbefore
    refine run_induction (Delivered _ streamPos) (RecvQueueOp.FromStream streamPos stream)
      (delivered_create _ streamPos) ?_ fun op hop => hops op (hbefore.subset hop)
    intro r op hr hop
    refine hr.apply fun pos payload heq i x hx => ?_
    subst heq
    obtain ⟨hle, hslice⟩ := hop
    refine ⟨by omega, ?_⟩
    obtain ⟨hi, _⟩ := List.getElem?_eq_some_iff.mp hx
    have hbyte := hslice i hi
    rwa [hx, show pos - streamPos + i = pos + i - streamPos by omega] at hbyte
  have hall := hrun ops (prefix_refl ops)
  refine ⟨?_, hall.popped.consecutive, hall.queue.read_le, fun before op hbefore => ?_⟩
  · refine Slice.prefix fun i hi => ?_
    obtain ⟨x, hx⟩ : ∃ x, (RecvStream.handed (run streamPos ops).popped)[i]? = some x :=
      ⟨_, List.getElem?_eq_getElem hi⟩
    have hbyte := (hall.popped.bytes i x hx).2
    rw [hx, Nat.zero_add]
    rwa [Nat.add_sub_cancel_left] at hbyte
  · have hprefix : before <+: ops := (prefix_append before [op]).trans hbefore
    exact (hrun before hprefix).queue.assertsHold op

/-- Five bytes that arrive in the wrong order, into two buffers. -/
def deliverOps : List RecvQueueOp :=
  [.addBuffer 0 [0, 0] 0, .addBuffer 1 [0, 0, 0, 0] 0, .writeData 3 [3, 4, 5], .writeData 1 [1, 2, 3],
    .popCompleteBuffers true]

/-- They are handed over in the order of the stream. -/
theorem RecvRun.delivery_two_buffers :
    RecvStream.handed (run 1 deliverOps).popped = [1, 2, 3, 4, 5] ∧
    RecvStream.handed (run 1 deliverOps).popped <+: [1, 2, 3, 4, 5, 6] := by
  refine ⟨by decide +kernel, (delivery 1 [1, 2, 3, 4, 5, 6] deliverOps ?_).1⟩
  intro op hop
  simp only [deliverOps, mem_cons, not_mem_nil, or_false] at hop
  rcases hop with rfl | rfl | rfl | rfl | rfl
  · trivial
  · trivial
  · exact ⟨by decide, (Slice.append_right [1, 2] [3, 4, 5]).mono [6]⟩
  · exact ⟨by decide, (Slice.append_right [] [1, 2, 3]).mono [4, 5, 6]⟩
  · trivial

/-! ## The ack position -/

namespace RecvBlocks

/-- The blocks are in order, with a gap between one and the next. -/
def Sorted (blocks : List RecvQueueRecvBlock) : Prop :=
  blocks.Pairwise fun a b => a.endStreamPos < b.startStreamPos

/-- All blocks lie behind the ack. -/
def Beyond (r : RecvBlocks) : Prop :=
  ∀ b ∈ r.blocks, r.ackStreamPos < b.startStreamPos

variable {block : RecvQueueRecvBlock} {before : List RecvQueueRecvBlock}

variable {after : List RecvQueueRecvBlock} {latest : Option Nat} {prevBlock : Bool}

/-- Absorbing the blocks on one side of a block, nearest first, stops at the first gap. The end of the
block on the other side, `far`, stays where it is. -/
theorem mergeRun_gap (far : RecvQueueRecvBlock → Nat) (side : Nat → RecvQueueRecvBlock → Prop)
    (apart : RecvQueueRecvBlock → RecvQueueRecvBlock → Prop) {blocks : List RecvQueueRecvBlock}
    (hjoin : ∀ x n, side (far x) n → far (joined x n.startStreamPos n.endStreamPos) = far x)
    (hstop : ∀ x n, x.Proper → n.Proper → side (far x) n → (calcRelaPos x.startStreamPos x.endStreamPos
      n.startStreamPos n.endStreamPos).overlaps = false → apart x n)
    (htrans : ∀ x n b, n.Proper → apart x n → apart n b → apart x b) (latest : Option Nat)
    (hblock : block.Proper) (hblocks : ∀ b ∈ blocks, b.Proper) (hsorted : blocks.Pairwise apart)
    (hside : ∀ b ∈ blocks, side (far block) b) :
    far (mergeRun block latest blocks).1 = far block ∧
    block.endStreamPos ≤ (mergeRun block latest blocks).1.endStreamPos ∧
    (mergeRun block latest blocks).2.2 <:+ blocks ∧
    ∀ b ∈ (mergeRun block latest blocks).2.2, apart (mergeRun block latest blocks).1 b := by
  induction blocks generalizing block latest with
  | nil => exact ⟨rfl, Nat.le_refl _, suffix_refl _, by simp [mergeRun]⟩
  | cons n rest ih =>
    have hn := hblocks n (by simp)
    have hfar := hside n (by simp)
    obtain ⟨hgap, hrest⟩ := pairwise_cons.mp hsorted
    cases htouch : (calcRelaPos block.startStreamPos block.endStreamPos n.startStreamPos
        n.endStreamPos).overlaps with
    | true =>
      rw [mergeRun_touch latest htouch]
      have hjoined := hjoin block n hfar
      obtain ⟨hsame, hend, hsuffix, hapart⟩ := ih (if latest = some n.address then none else latest)
        (joined_proper hblock _ _) (fun b hb => hblocks b (by simp [hb])) hrest
        (fun b hb => hjoined ▸ hside b (by simp [hb]))
      exact ⟨hsame.trans hjoined, Nat.le_trans (Nat.le_max_left _ _) hend,
        hsuffix.trans (suffix_cons n rest), hapart⟩
    | false =>
      rw [mergeRun_stop latest htouch]
      have hfirst := hstop block n hblock hn hfar htouch
      refine ⟨rfl, Nat.le_refl _, suffix_refl _, fun b hb => ?_⟩
      rcases mem_cons.mp hb with rfl | hb
      · exact hfirst
      · exact htrans block n b hn hfirst (hgap b hb)

variable {r : RecvBlocks} {start stop : Nat}

/-- `RecvQueueBlocksMerge` restores the order around a block that was made longer. -/
theorem Proper.blocksMerge_sorted (h : r.Proper) (hsorted : Sorted r.blocks) (latest : Option Nat)
    (hblocks : r.blocks = before ++ block :: after) (start stop : Nat) :
    Sorted (r.blocksMerge latest before (joined block start stop) after).blocks := by
  rw [hblocks] at hsorted
  obtain ⟨hbefore, hright, hcross⟩ := pairwise_append.mp hsorted
  obtain ⟨hblockAfter, hafter⟩ := pairwise_cons.mp hright
  have hblock : block.Proper := h block (by simp [hblocks])
  have hproperBefore : ∀ b ∈ before, b.Proper := fun b hb => h b (by simp [hblocks, hb])
  have hproperAfter : ∀ b ∈ after, b.Proper := fun b hb => h b (by simp [hblocks, hb])
  have hjoined := joined_proper hblock start stop
  have hproper : block.startStreamPos < block.endStreamPos := hblock
  have hjoinedStart : (joined block start stop).startStreamPos ≤ block.startStreamPos :=
    Nat.min_le_left _ _
  have hjoinedEnd : block.endStreamPos ≤ (joined block start stop).endStreamPos :=
    Nat.le_max_left _ _
  obtain ⟨⟨hmid, _⟩, _⟩ := mergeRun_has latest hjoined hproperAfter
  obtain ⟨_, hend, hsuffixAfter, hgapAfter⟩ := mergeRun_gap (·.startStreamPos)
    (fun first b => first ≤ b.startStreamPos) (fun x b => x.endStreamPos < b.startStreamPos)
    (fun _ _ => Nat.min_eq_left)
    (fun x n hx hn hle htouch => by
      unfold RecvQueueRecvBlock.Proper at hx hn
      rcases calcRelaPos_gap hx hn htouch with ⟨_, hlt⟩ | ⟨_, hlt⟩ <;> omega)
    (fun x n b hn hxn hnb => Nat.lt_trans hxn (Nat.lt_trans hn hnb)) latest hjoined hproperAfter hafter
    fun b hb => by
      have := hblockAfter b hb
      omega
  obtain ⟨hsame, -, hsuffixBefore, hgapBefore⟩ := mergeRun_gap (·.endStreamPos)
    (fun last b => b.endStreamPos ≤ last) (fun x b => b.endStreamPos < x.startStreamPos)
    (fun _ _ => Nat.max_eq_left)
    (fun x n hx hn hle htouch => by
      unfold RecvQueueRecvBlock.Proper at hx hn
      rcases calcRelaPos_gap hx hn htouch with ⟨_, hlt⟩ | ⟨_, hlt⟩ <;> omega)
    (fun x n b hn hnx hbn => Nat.lt_trans hbn (Nat.lt_trans hn hnx))
    (mergeRun (joined block start stop) latest after).2.1 hmid
    (fun b hb => hproperBefore b (mem_reverse.mp hb)) (pairwise_reverse.mpr hbefore)
    fun b hb => by
      have := hcross b (mem_reverse.mp hb) block (by simp)
      omega
  refine pairwise_append.mpr ⟨?_, pairwise_cons.mpr ⟨?_, ?_⟩, ?_⟩
  · exact pairwise_reverse.mpr
      ((pairwise_reverse.mpr hbefore).sublist hsuffixBefore.sublist)
  · intro b hb
    rw [hsame]
    exact hgapAfter b hb
  · exact hafter.sublist hsuffixAfter.sublist
  intro a ha b hb
  have ha := mem_reverse.mp ha
  rcases mem_cons.mp hb with rfl | hb
  · exact hgapBefore a ha
  · exact hcross a (mem_reverse.mp (hsuffixBefore.subset ha)) b
      (mem_cons_of_mem _ (hsuffixAfter.subset hb))

variable {rest before : List RecvQueueRecvBlock}

/-- The loop of `RecvQueueAddToBlocks` keeps the order, when the blocks it has gone past lie in front
of the range, or the range does not lie in front of the block it looks at. -/
theorem Proper.addLoop_sorted (h : r.Proper) (hsorted : Sorted r.blocks)
    (hrange : start < stop) (hblocks : r.blocks = before ++ rest)
    (hplace : (∀ b ∈ before, b.endStreamPos < start) ∧ (prevBlock = false → before = []) ∨
      ∃ b ∈ rest.head?, b.startStreamPos ≤ stop) :
    Sorted (r.addLoop start stop before prevBlock rest).2.blocks := by
  induction rest generalizing before prevBlock with
  | nil =>
    obtain ⟨hbefore, _⟩ := hplace.resolve_right (by simp)
    show Sorted (before ++ [_])
    rw [hblocks, append_nil] at hsorted
    refine pairwise_append.mpr ⟨hsorted, pairwise_singleton _ _, ?_⟩
    intro a ha b hb
    rw [mem_singleton.mp hb]
    exact hbefore a ha
  | cons block rest ih =>
    have hblock : block.Proper := h block (by simp [hblocks])
    have hsplit := hsorted
    rw [hblocks] at hsplit
    obtain ⟨hbefore, hright, hcross⟩ := pairwise_append.mp hsplit
    obtain ⟨hblockRest, hrest⟩ := pairwise_cons.mp hright
    have hgap := calcRelaPos_gap (hblock : block.startStreamPos < block.endStreamPos) hrange
    unfold RecvBlocks.addLoop
    simp only [joined_comm]
    split
    case h_1 =>
      split
      · exact hsorted
      · exact h.blocksMerge_sorted hsorted _ hblocks start stop
    case h_2 => exact h.blocksMerge_sorted hsorted _ hblocks start stop
    case h_3 hrela =>
      have hnext : block.endStreamPos < start := by
        rcases hgap (by rw [hrela]; rfl) with ⟨hprev, _⟩ | ⟨_, hlt⟩
        · rw [hrela] at hprev
          cases hprev
        · exact hlt
      refine ih (by simp [hblocks]) (.inl ⟨?_, by simp⟩)
      intro b hb
      rcases mem_append.mp hb with hb | hb
      · have := hcross b hb block (by simp)
        unfold RecvQueueRecvBlock.Proper at hblock
        omega
      · rw [mem_singleton.mp hb]
        exact hnext
    case h_4 hrela =>
    have hprev : stop < block.startStreamPos := by
      rcases hgap (by rw [hrela]; rfl) with ⟨_, hlt⟩ | ⟨hnext, _⟩
      · exact hlt
      · rw [hrela] at hnext
        cases hnext
    obtain ⟨hfront, hnil⟩ := hplace.resolve_right (by
      rintro ⟨b, hb, hle⟩
      cases hb
      omega)
    -- the range goes between the blocks before it and `block`
    have hnew : ∀ n : RecvQueueRecvBlock, n.startStreamPos = start → n.endStreamPos = stop →
        Sorted (before ++ n :: block :: rest) := by
      intro n hn hn'
      refine pairwise_append.mpr ⟨hbefore, pairwise_cons.mpr ⟨?_, hright⟩, ?_⟩
      · intro b hb
        rw [hn']
        rcases mem_cons.mp hb with rfl | hb
        · exact hprev
        · have := hblockRest b hb
          unfold RecvQueueRecvBlock.Proper at hblock
          omega
      intro a ha b hb
      rcases mem_cons.mp hb with rfl | hb
      · rw [hn]
        exact hfront a ha
      · exact hcross a ha b hb
    show Sorted (if prevBlock then before ++ _ :: block :: rest else _ :: (before ++ block :: rest))
    cases hcase : prevBlock with
    | true => exact hnew _ rfl rfl
    | false =>
      rw [hnil hcase] at hnew ⊢
      exact hnew _ rfl rfl

theorem Proper.addToBlocks_sorted (h : r.Proper) (hsorted : Sorted r.blocks)
    (hrange : start < stop) :
    Sorted (r.addToBlocks start stop).2.blocks := by
  have hfirst : Sorted (r.addLoop start stop [] false r.blocks).2.blocks :=
    h.addLoop_sorted hsorted hrange rfl (.inl ⟨by simp, fun _ => rfl⟩)
  unfold RecvBlocks.addToBlocks
  split
  case h_1 latest hlatest =>
    split
    · exact hfirst
    case isFalse hfrom =>
    refine h.addLoop_sorted hsorted hrange takeWhile_append_dropWhile.symm (.inr ?_)
    refine ⟨latest, ?_, Nat.not_lt.mp hfrom⟩
    rw [List.find?_eq_head?_dropWhile_not] at hlatest
    simpa using hlatest
  · exact hfirst

/-- `latest` is null or points to one of the blocks. -/
def LatestIn (latest : Option Nat) (blocks : List RecvQueueRecvBlock) : Prop :=
  ∀ a, latest = some a → ∃ b ∈ blocks, b.address = a

/-- A block that is absorbed is not the latest one any more. -/
theorem mergeRun_latest {list others : List RecvQueueRecvBlock}
    (h : LatestIn latest (others ++ block :: list)) : LatestIn (mergeRun block latest list).2.1
      (others ++ (mergeRun block latest list).1 :: (mergeRun block latest list).2.2) := by
  induction list generalizing block latest with
  | nil => exact h
  | cons _ _ ih =>
    unfold mergeRun
    split
    case isTrue =>
      refine ih fun a ha => ?_
      split at ha
      · cases ha
      case isFalse hne =>
      obtain ⟨b, hb, haddress⟩ := h a ha
      simp only [mem_append, mem_cons] at hb ⊢
      rcases hb with hb | rfl | rfl | hb
      · exact ⟨b, .inl hb, haddress⟩
      · exact ⟨_, .inr (.inl rfl), haddress⟩
      · exact absurd (haddress ▸ ha) hne
      · exact ⟨b, .inr (.inr hb), haddress⟩
    case isFalse => exact h

theorem blocksMerge_latest {after : List RecvQueueRecvBlock}
    (h : LatestIn latest (before ++ block :: after)) :
    LatestIn (r.blocksMerge latest before block after).latest
      (r.blocksMerge latest before block after).blocks := by
  have hafter := mergeRun_latest h
  have hmem : ∀ (b mid : RecvQueueRecvBlock) front back,
      b ∈ back ++ mid :: reverse front ↔ b ∈ front ++ mid :: back := by
    intro b mid front back
    simp only [mem_append, mem_cons, mem_reverse]
    tauto
  have hbefore : LatestIn _ ((mergeRun block latest after).2.2 ++
      (mergeRun block latest after).1 :: before.reverse) :=
    fun a ha => (hafter a ha).imp fun b => And.imp_left (hmem b _ _ _).mpr
  intro a ha
  obtain ⟨b, hb, haddress⟩ := mergeRun_latest hbefore a ha
  refine ⟨b, (hmem b _ _ _).mp ?_, haddress⟩
  rwa [reverse_reverse]

/-- `RecvQueueAddToBlocks` leaves `latest` null or at a block. -/
theorem addToBlocks_latest (h : LatestIn r.latest r.blocks) (start stop : Nat) :
    LatestIn (r.addToBlocks start stop).2.latest (r.addToBlocks start stop).2.blocks := by
  have hloop : ∀ before rest prevBlock, r.blocks = before ++ rest →
      LatestIn (r.addLoop start stop before prevBlock rest).2.latest
        (r.addLoop start stop before prevBlock rest).2.blocks := by
    intro before rest prevBlock hblocks
    induction rest generalizing before prevBlock with
    | nil =>
      rintro a ⟨⟩
      exact ⟨_, mem_append_right _ (mem_singleton_self _), rfl⟩
    | cons _ _ ih =>
      unfold RecvBlocks.addLoop
      split
      case h_1 =>
        split
        · exact h
        · refine blocksMerge_latest ?_
          rintro a ⟨⟩
          exact ⟨_, mem_append_right _ mem_cons_self, rfl⟩
      case h_2 =>
        refine blocksMerge_latest fun a ha => ?_
        obtain ⟨b, hb, haddress⟩ := h a ha
        rw [hblocks, mem_append, mem_cons] at hb
        simp only [mem_append, mem_cons]
        rcases hb with hb | rfl | hb
        · exact ⟨b, .inl hb, haddress⟩
        · exact ⟨_, .inr (.inl rfl), haddress⟩
        · exact ⟨b, .inr (.inr hb), haddress⟩
      case h_3 => exact ih _ true (by simp [hblocks])
      case h_4 =>
      rintro a ⟨⟩
      refine ⟨⟨r.nextAddress, start, stop⟩, ?_, rfl⟩
      show _ ∈ if prevBlock then _ else _
      split <;> simp
  unfold RecvBlocks.addToBlocks
  split
  · split
    · exact hloop _ _ _ rfl
    · exact hloop _ _ _ takeWhile_append_dropWhile.symm
  · exact hloop _ _ _ rfl

/-- The loop finds the range old when one of the blocks left holds all of it. -/
theorem addLoop_old
    (hproper : ∀ b ∈ rest, b.Proper) (hsorted : Sorted rest) (hrange : start < stop) :
    (r.addLoop start stop before prevBlock rest).1 = true ↔
      ∃ b ∈ rest, b.startStreamPos ≤ start ∧ stop ≤ b.endStreamPos := by
  induction rest generalizing before prevBlock with
  | nil => simp [RecvBlocks.addLoop]
  | cons block rest ih =>
    have hblock : block.startStreamPos < block.endStreamPos := hproper block mem_cons_self
    obtain ⟨hgap, hrest⟩ := pairwise_cons.mp hsorted
    -- a block that touches the range is the only one that can hold it
    have honly : (calcRelaPos block.startStreamPos block.endStreamPos start stop).overlaps = true →
        ∀ b ∈ rest, ¬ (b.startStreamPos ≤ start ∧ stop ≤ b.endStreamPos) := by
      intro htouch b hb hin
      have hpos := (calcRelaPos_touch hblock hrange htouch block.endStreamPos).mp
      have hlater := hgap b hb
      omega
    have hmissed := calcRelaPos_gap hblock hrange
    unfold RecvBlocks.addLoop
    rw [exists_mem_cons_iff]
    split
    case h_1 hrela =>
      split
      case isTrue hin => exact iff_of_true rfl (.inl hin)
      case isFalse hnot =>
      refine iff_of_false Bool.false_ne_true (not_or_intro hnot ?_)
      rintro ⟨b, hb, hin⟩
      exact honly (by rw [hrela]; rfl) b hb hin
    case h_2 hrela =>
      refine iff_of_false Bool.false_ne_true (not_or_intro ?_ ?_)
      · intro hin
        unfold calcRelaPos at hrela
        simp only at hrela
        split at hrela
        · split at hrela
          · cases hrela
          · omega
        · split at hrela <;> cases hrela
      · rintro ⟨b, hb, hin⟩
        exact honly (by rw [hrela]; rfl) b hb hin
    case h_3 hrela =>
      rw [hrela] at hmissed
      rw [ih (fun b hb => hproper b (mem_cons_of_mem _ hb)) hrest, or_iff_right]
      have := hmissed rfl
      omega
    case h_4 hrela =>
    rw [hrela] at hmissed
    have := hmissed rfl
    simp only [reduceCtorEq, false_and, or_false] at this
    refine iff_of_false Bool.false_ne_true (not_or_intro (by omega) ?_)
    rintro ⟨b, hb, hin⟩
    have := hgap b hb
    omega

theorem Sorted.holds_range {blocks : List RecvQueueRecvBlock} (hsorted : Sorted blocks)
    (hrange : start < stop) :
    (∃ b ∈ blocks, b.startStreamPos ≤ start ∧ stop ≤ b.endStreamPos) ↔
      ∀ pos, start ≤ pos → pos < stop → covered blocks pos := by
  constructor
  · rintro ⟨b, hb, hstart, hstop⟩ pos hle hlt
    exact ⟨b, hb, Nat.le_trans hstart hle, Nat.lt_of_lt_of_le hlt hstop⟩
  intro hall
  obtain ⟨b, hb, hstart, hin⟩ := hall start (Nat.le_refl _) hrange
  refine ⟨b, hb, hstart, Nat.not_lt.mp fun hshort => ?_⟩
  -- the position at the end of `b` would lie in a block that touches it
  obtain ⟨c, hc, hcstart, hcin⟩ := hall b.endStreamPos (Nat.le_of_lt hin) hshort
  obtain ⟨front, back, rfl⟩ := append_of_mem hb
  obtain ⟨_, hback, hfront⟩ := pairwise_append.mp hsorted
  rcases mem_append.mp hc with hc | hc
  · have := hfront c hc b mem_cons_self
    omega
  rcases mem_cons.mp hc with rfl | hc
  · omega
  · have := (pairwise_cons.mp hback).1 c hc
    omega

/-- `RecvQueueAddToBlocks` finds a range old when all of it is received. -/
theorem Proper.addToBlocks_old (h : r.Proper) (hsorted : Sorted r.blocks) (hrange : start < stop) :
    (r.addToBlocks start stop).1 = true ↔
      ∀ pos, start ≤ pos → pos < stop → covered r.blocks pos := by
  rw [← hsorted.holds_range hrange]
  have hloop : ∀ before rest, r.blocks = before ++ rest →
      (∀ b ∈ before, b.endStreamPos < stop) →
      ((r.addLoop start stop before false rest).1 = true ↔
        ∃ b ∈ r.blocks, b.startStreamPos ≤ start ∧ stop ≤ b.endStreamPos) := by
    intro before rest hblocks hbefore
    rw [hblocks] at hsorted
    rw [addLoop_old (fun b hb => h b (by simp [hblocks, hb])) (pairwise_append.mp hsorted).2.1 hrange,
      hblocks]
    refine ⟨fun ⟨b, hb, hin⟩ => ⟨b, mem_append_right _ hb, hin⟩, fun ⟨b, hb, hin⟩ => ⟨b, ?_, hin⟩⟩
    refine (mem_append.mp hb).resolve_left fun hb => ?_
    have := hbefore b hb
    omega
  have hfirst := hloop [] r.blocks rfl (by simp)
  unfold RecvBlocks.addToBlocks
  split
  case h_1 latest hlatest =>
    split
    · exact hfirst
    case isFalse hfrom =>
    refine hloop _ _ takeWhile_append_dropWhile.symm fun b hb => ?_
    rw [List.find?_eq_head?_dropWhile_not] at hlatest
    rw [← takeWhile_append_dropWhile (p := fun b => r.latest ≠ some b.address)
      (l := r.blocks)] at hsorted
    have := (pairwise_append.mp hsorted).2.2 b hb latest
      (mem_of_mem_head? (by simpa using hlatest))
    omega
  · exact hfirst

/-- Insert ranges, one after the other. -/
def addRanges (r : RecvBlocks) (ranges : List (Nat × Nat)) : RecvBlocks :=
  ranges.foldl (fun r range => (r.addToBlocks range.1 range.2).2) r

/-- One of the ranges holds the position. -/
def InRanges (ranges : List (Nat × Nat)) (pos : Nat) : Prop :=
  ∃ range ∈ ranges, range.1 ≤ pos ∧ pos < range.2

/-- The blocks are the maximal intervals of the union, in order and with gaps between them, and a range
counts as old when the union holds it. -/
def Refines (r : RecvBlocks) (ranges : List (Nat × Nat)) : Prop :=
  (r.Proper ∧ Sorted r.blocks) ∧ (∀ pos, covered r.blocks pos ↔ InRanges ranges pos) ∧
    (∀ start stop, start < stop → ((r.addToBlocks start stop).1 = true ↔
      ∀ pos, start ≤ pos → pos < stop → InRanges ranges pos)) ∧
    LatestIn r.latest r.blocks

/-- Inserting ranges is inserting intervals into a set. -/
theorem addRanges_refines (streamPos : Nat) (ranges : List (Nat × Nat))
    (hranges : ∀ range ∈ ranges, range.1 < range.2) :
    (addRanges { ackStreamPos := streamPos } ranges).Refines ranges := by
  let r := addRanges { ackStreamPos := streamPos } ranges
  have hkeeps : (r.Proper ∧ Sorted r.blocks) ∧ (∀ pos, covered r.blocks pos ↔ InRanges ranges pos) ∧
      LatestIn r.latest r.blocks := by
    induction ranges using List.reverseRecOn with
    | nil =>
      refine ⟨⟨fun b hb => absurd hb not_mem_nil, Pairwise.nil⟩, fun pos => ?_, ?_⟩
      · exact iff_of_false (fun ⟨_, hb, _⟩ => not_mem_nil hb) fun ⟨_, hb, _⟩ => not_mem_nil hb
      · rintro a ⟨⟩
    | append_singleton ranges range ih =>
      obtain ⟨⟨hproper, hsorted⟩, hcovered, hlatest⟩ :=
        ih fun range hr => hranges range (mem_append_left _ hr)
      have hrange := hranges range (by simp)
      have hadded := hproper.addToBlocks hrange
      have hstep : r = ((addRanges { ackStreamPos := streamPos } ranges).addToBlocks
          range.1 range.2).2 := foldl_concat ..
      rw [hstep]
      refine ⟨⟨hadded.proper, hproper.addToBlocks_sorted hsorted hrange⟩, fun pos => ?_,
        addToBlocks_latest hlatest _ _⟩
      rw [hadded.covered, hcovered]
      simp [InRanges, or_and_right, exists_or]
  refine ⟨hkeeps.1, hkeeps.2.1, fun start stop hrange => ?_, hkeeps.2.2⟩
  show (r.addToBlocks start stop).1 = true ↔ _
  simp only [hkeeps.1.1.addToBlocks_old hkeeps.1.2 hrange, hkeeps.2.1]

/-- The third range closes the gap between the first two. -/
theorem addRanges_joined : ((addRanges { ackStreamPos := 0 } [(20, 30), (0, 10), (10, 20)]).addToBlocks
    5 25).1 = true := by
  refine ((addRanges_refines 0 _ (by decide)).2.2.1 5 25 (by decide)).mpr fun pos hstart hstop => ?_
  simp only [InRanges, mem_cons, not_mem_nil, or_false, exists_eq_or_imp, exists_eq_left]
  omega

/-- A range in order that reaches a block behind the first one, which is the only one that
`RecvQueueUpdateStreamPos` looks at. -/
def Overreaches (r : RecvBlocks) (start stop : Nat) : Prop :=
  start ≤ r.ackStreamPos ∧ ∃ b ∈ r.blocks.tail, b.startStreamPos ≤ stop

/-- `RecvQueueUpdateStreamPos` keeps the order of the blocks. -/
theorem Proper.updateStreamPos_sorted (h : r.Proper) (hsorted : Sorted r.blocks)
    (hrange : start < stop) :
    Sorted (r.updateStreamPos start stop).2.blocks := by
  unfold RecvBlocks.updateStreamPos
  split
  · exact hsorted
  split
  · split
    · exact hsorted
    case h_2 block rest hblocks =>
    split
    · exact (pairwise_cons.mp (hblocks ▸ hsorted)).2
    · exact hsorted
  · exact h.addToBlocks_sorted hsorted hrange

/-- `RecvQueueUpdateStreamPos` leaves all blocks behind the ack unless the range overreaches. -/
theorem Proper.updateStreamPos_beyond (h : r.Proper) (hsorted : Sorted r.blocks)
    (hbeyond : r.Beyond) (hrange : start < stop) :
    (r.updateStreamPos start stop).2.Beyond ↔ ¬ r.Overreaches start stop := by
  unfold RecvBlocks.updateStreamPos
  split
  case isTrue hold =>
    refine iff_of_true hbeyond ?_
    rintro ⟨_, b, hb, hle⟩
    have := hbeyond b (mem_of_mem_tail hb)
    omega
  case isFalse hlater =>
  split
  case isTrue hinOrder =>
    split
    case h_1 hnil =>
      refine iff_of_true (by simp [hnil, Beyond]) ?_
      rintro ⟨_, b, hb, _⟩
      simp [hnil] at hb
    case h_2 block rest hblocks =>
    have hblock : block.startStreamPos < block.endStreamPos := h block (by simp [hblocks])
    have hfirst := hbeyond block (by simp [hblocks])
    obtain ⟨hgap, hrest⟩ := pairwise_cons.mp (hblocks ▸ hsorted)
    have hover : r.Overreaches start stop ↔ ∃ b ∈ rest, b.startStreamPos ≤ stop := by
      unfold Overreaches
      rw [hblocks, tail_cons, and_iff_right hinOrder]
    rw [hover]
    split
    case isTrue =>
      -- the first block is gone, and the others stay
      refine ⟨fun hb => ?_, fun hno b hb => ?_⟩
      · rintro ⟨b, hmem, hle⟩
        have hlt : max stop block.endStreamPos < b.startStreamPos := hb b hmem
        omega
      have := hgap b hb
      have hstop : ¬ b.startStreamPos ≤ stop := fun hle => hno ⟨b, hb, hle⟩
      show max stop block.endStreamPos < b.startStreamPos
      omega
    case isFalse hfar =>
    rw [Bool.not_eq_true] at hfar
    have hlt : stop < block.startStreamPos := by
      rcases calcRelaPos_gap hblock hrange hfar with ⟨_, hlt⟩ | ⟨_, hlt⟩ <;> omega
    have hall : ∀ b ∈ r.blocks, stop < b.startStreamPos := by
      intro b hb
      rcases mem_cons.mp (hblocks ▸ hb) with rfl | hb
      · exact hlt
      · have := hgap b hb
        omega
    refine iff_of_true hall ?_
    rintro ⟨b, hb, hle⟩
    have := hall b (by simp [hblocks, hb])
    omega
  case isFalse hout =>
  refine iff_of_true ?_ fun hover => hout hover.1
  obtain ⟨hproper, hack, hcovered⟩ := h.addToBlocks hrange
  intro b hb
  have hstart : b.startStreamPos < b.endStreamPos := hproper b hb
  show (r.addToBlocks start stop).2.ackStreamPos < _
  rw [hack]
  rcases (hcovered b.startStreamPos).mp ⟨b, hb, Nat.le_refl _, hstart⟩ with
    ⟨c, hc, hle, _⟩ | ⟨hle, _⟩
  · have := hbeyond c hc
    omega
  · omega

end RecvBlocks

/-! ## The ack is the end of the contiguous prefix -/

/-- The write of an operation overreaches, counting the bytes that it saves. -/
def RecvQueueOp.Overreaches (queue : RecvQueue) : RecvQueueOp → Prop
  | .writeData streamPos payload =>
    queue.recvBlock.Overreaches streamPos (streamPos + queue.saveLen streamPos payload)
  | _ => False

namespace RecvRun

/-- One of the saved ranges holds the position. -/
def Saved (r : RecvRun) (pos : Nat) : Prop :=
  ∃ range ∈ r.saved, range.1 ≤ pos ∧ pos < range.2

/-- The ack is the end of the longest contiguous prefix of the ranges saved, and all blocks lie
behind it. -/
structure Contiguous (streamPos : Nat) (r : RecvRun) : Prop where
  le : streamPos ≤ r.queue.recvBlock.ackStreamPos
  reached : ∀ pos, streamPos ≤ pos → pos < r.queue.recvBlock.ackStreamPos → r.Saved pos
  maximal : ¬ r.Saved r.queue.recvBlock.ackStreamPos
  beyond : r.queue.recvBlock.Beyond

/-- What a run keeps in any case: the queue counts exactly the positions saved, and those before its
start, and its blocks are in order. -/
structure Counts (streamPos : Nat) (r : RecvRun) : Prop where
  queue : r.queue.Wf fun _ _ => True
  sorted : RecvBlocks.Sorted r.queue.recvBlock.blocks
  le : streamPos ≤ r.queue.recvBlock.ackStreamPos
  covers : ∀ pos, r.queue.recvBlock.covers pos ↔ pos < streamPos ∨ r.Saved pos

variable {streamPos : Nat} {r : RecvRun}

theorem Counts.contiguous_beyond (h : r.Counts streamPos) :
    r.Contiguous streamPos ↔ r.queue.recvBlock.Beyond := by
  refine ⟨fun hc => hc.beyond, fun hb => ⟨h.le, fun pos hle hlt => ?_, fun hsaved => ?_, hb⟩⟩
  · rcases (h.covers pos).mp (.inl hlt) with hbefore | hsaved
    · omega
    · exact hsaved
  rcases (h.covers _).mpr (.inr hsaved) with hlt | ⟨b, hmem, hle, _⟩
  · omega
  · have := hb b hmem
    omega

theorem counts_create (streamPos : Nat) :
    Counts streamPos { queue := RecvQueue.create streamPos } where
  queue := RecvQueue.wf_create _ streamPos
  sorted := Pairwise.nil
  le := Nat.le_refl _
  covers := by simp [RecvBlocks.covers, RecvBlocks.covered, RecvQueue.create, Saved]

theorem Counts.frame {s : RecvRun} (h : r.Counts streamPos)
    (hqueue : s.queue.Wf fun _ _ => True) (hblock : s.queue.recvBlock = r.queue.recvBlock)
    (hsaved : ∀ pos, s.Saved pos ↔ r.Saved pos) : s.Counts streamPos where
  queue := hqueue
  sorted := hblock ▸ h.sorted
  le := hblock ▸ h.le
  covers := by
    intro pos
    rw [hblock, hsaved]
    exact h.covers pos

theorem Counts.apply (h : r.Counts streamPos) (op : RecvQueueOp) :
    (r.apply op).Counts streamPos := by
  cases op with
  | addBuffer address data userData =>
    have hqueue : ((r.queue.addBuffer address data userData).getD r.queue).Wf (fun _ _ => True) ∧
        ((r.queue.addBuffer address data userData).getD r.queue).recvBlock = r.queue.recvBlock := by
      cases hadd : r.queue.addBuffer address data userData with
      | none => exact ⟨h.queue, rfl⟩
      | some => exact ⟨h.queue.addBuffer hadd, (RecvQueue.addBuffer_fields hadd).1⟩
    exact h.frame hqueue.1 hqueue.2 fun _ => Iff.rfl
  | popCompleteBuffers force =>
    exact h.frame (h.queue.popCompleteBuffers force).1 rfl fun _ => Iff.rfl
  | writeData pos payload =>
    have hqueue : (r.queue.writeData pos payload).2.Wf fun _ _ => True :=
      (h.queue.writeData fun _ _ _ => trivial).1
    have hsaved : ∀ p, (r.apply (.writeData pos payload)).Saved p ↔
        r.Saved p ∨ pos ≤ p ∧ p < pos + r.queue.saveLen pos payload := by
      intro p
      simp [Saved, RecvRun.apply, or_and_right, exists_or]
    have hblock := r.queue.writeData_recvBlock pos payload
    split at hblock
    case isTrue hzero =>
      refine h.frame hqueue hblock fun p => ?_
      rw [hsaved, hzero, or_iff_left (by omega)]
    case isFalse hsome =>
    have hrange : pos < pos + r.queue.saveLen pos payload := by omega
    have hgrown := h.queue.proper.updateStreamPos hrange
    rw [← hblock] at hgrown
    refine ⟨hqueue, ?_, Nat.le_trans h.le hgrown.ack, fun p => ?_⟩
    · show RecvBlocks.Sorted (r.queue.writeData pos payload).2.recvBlock.blocks
      rw [hblock]
      exact h.queue.proper.updateStreamPos_sorted h.sorted hrange
    · rw [hsaved, ← or_assoc, ← h.covers]
      exact hgrown.covers p

/-- After one operation the blocks still lie behind the ack, unless it overreaches. -/
theorem Counts.beyond_iff (h : r.Counts streamPos)
    (hbeyond : r.queue.recvBlock.Beyond) (op : RecvQueueOp) :
    (r.apply op).queue.recvBlock.Beyond ↔ ¬ op.Overreaches r.queue := by
  cases op with
  | addBuffer address data userData =>
    refine iff_of_true ?_ fun hover => hover
    show ((r.queue.addBuffer address data userData).getD r.queue).recvBlock.Beyond
    unfold RecvQueue.addBuffer
    split
    · exact hbeyond
    · split <;> exact hbeyond
  | popCompleteBuffers => exact iff_of_true hbeyond fun hover => hover
  | writeData pos payload =>
    have hblock := r.queue.writeData_recvBlock pos payload
    show (r.queue.writeData pos payload).2.recvBlock.Beyond ↔
      ¬ r.queue.recvBlock.Overreaches pos (pos + r.queue.saveLen pos payload)
    rw [hblock]
    split
    case isTrue hzero =>
      refine iff_of_true hbeyond ?_
      rintro ⟨hle, b, hb, hstart⟩
      have := hbeyond b (mem_of_mem_tail hb)
      omega
    case isFalse hsome =>
      exact h.queue.proper.updateStreamPos_beyond h.sorted hbeyond (by omega)

/-- In a sequence of operations, the ack is the end of the contiguous prefix and all blocks lie
behind it after each of them, if and only if none of them overreaches. -/
theorem contiguous_iff (streamPos : Nat) (ops : List RecvQueueOp) :
    (∀ before, before <+: ops → (run streamPos before).Contiguous streamPos) ↔
      ∀ before op, before ++ [op] <+: ops → ¬ op.Overreaches (run streamPos before).queue := by
  have hcounts : ∀ before, (run streamPos before).Counts streamPos := fun before =>
    run_induction (Counts streamPos) (fun _ => True) (counts_create streamPos)
      (fun r op hr _ => hr.apply op) fun _ _ => trivial
  constructor
  · intro hall before op hbefore
    have hprefix : before <+: ops := (prefix_append before [op]).trans hbefore
    refine ((hcounts before).beyond_iff (hall before hprefix).beyond op).mp ?_
    rw [← run_append]
    exact (hall _ hbefore).beyond
  intro hno before hbefore
  induction before using List.reverseRecOn with
  | nil => exact (hcounts []).contiguous_beyond.mpr (by simp [RecvBlocks.Beyond, run, RecvQueue.create])
  | append_singleton before op ih =>
    have hprefix : before <+: ops := (prefix_append before [op]).trans hbefore
    refine (hcounts _).contiguous_beyond.mpr ?_
    rw [run_append]
    exact ((hcounts before).beyond_iff (ih hprefix).beyond op).mpr (hno before op hbefore)

/-- Two ranges out of order, and one in order that reaches both of them. -/
def overreachOps : List RecvQueueOp :=
  [.addBuffer 0 (List.replicate 10 0) 0, .writeData 3 [3], .writeData 5 [5, 6, 7],
    .writeData 1 [1, 2, 3, 4, 5]]

/-- All positions before 8 are saved, but the ack stays at 6. -/
theorem ack_stays_behind : ¬ ∀ (streamPos : Nat) (ops : List RecvQueueOp) (before : List RecvQueueOp),
    before <+: ops → (run streamPos before).Contiguous streamPos := by
  intro h
  have hend := (h 1 overreachOps overreachOps (prefix_refl _)).maximal
  refine hend ⟨(5, 8), ?_, ?_⟩
  · decide +kernel
  · decide +kernel

end RecvRun

end Bdt
