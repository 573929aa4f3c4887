import Bdt.Base.Slice
import Bdt.Connection.RecvQueue

/-!
# The invariant of the receive queue

`RecvBlocks.covers` are the positions that the queue counts as received: everything before
`ackStreamPos`, and the ranges beyond it. Merging ranges neither adds nor loses a position
(`RecvBlocks.Proper.updateStreamPos`), so a position is counted when its byte was saved.

`RecvStream.Laid` relates the users' buffers to these positions: the buffers lie one behind another,
every position received and not yet read lies in one of them, below its `endStreamPos`, and the byte
there is one that may stand at that position. `expected` says which bytes may, and is the peer's
stream in the end.
-/

namespace Bdt

open Base List

/-! ## The positions received -/

/-- The position lies in the range of a block. -/
def RecvQueueRecvBlock.has (block : RecvQueueRecvBlock) (pos : Nat) : Prop :=
  block.startStreamPos ≤ pos ∧ pos < block.endStreamPos

/-- No range is empty. -/
def RecvQueueRecvBlock.Proper (block : RecvQueueRecvBlock) : Prop :=
  block.startStreamPos < block.endStreamPos

/-- Two ranges that touch leave no gap between them. -/
theorem calcRelaPos_touch {baseStart baseEnd otherStart otherEnd : Nat}
    (hbase : baseStart < baseEnd) (hother : otherStart < otherEnd)
    (h : (calcRelaPos baseStart baseEnd otherStart otherEnd).overlaps = true) (pos : Nat) :
    min baseStart otherStart ≤ pos ∧ pos < max baseEnd otherEnd ↔
      baseStart ≤ pos ∧ pos < baseEnd ∨ otherStart ≤ pos ∧ pos < otherEnd := by
  have hclose : max baseEnd otherEnd - min baseStart otherStart ≤
      baseEnd - baseStart + (otherEnd - otherStart) := by
    unfold calcRelaPos at h
    simp only at h
    split at h
    · assumption
    · split at h <;> cases h
  omega

theorem calcRelaPos_gap {baseStart baseEnd otherStart otherEnd : Nat}
    (hbase : baseStart < baseEnd) (hother : otherStart < otherEnd)
    (h : (calcRelaPos baseStart baseEnd otherStart otherEnd).overlaps = false) :
    (calcRelaPos baseStart baseEnd otherStart otherEnd = .prev ∧ otherEnd < baseStart) ∨
    (calcRelaPos baseStart baseEnd otherStart otherEnd = .next ∧ baseEnd < otherStart) := by
  unfold calcRelaPos at h ⊢
  simp only at h ⊢
  split at h
  · split at h <;> cases h
  case isFalse hfar =>
  rw [if_neg hfar]
  split
  · exact .inl ⟨rfl, by omega⟩
  · exact .inr ⟨rfl, by omega⟩

namespace RecvBlocks

/-- The position lies in the range of one of the blocks. -/
def covered (blocks : List RecvQueueRecvBlock) (pos : Nat) : Prop :=
  ∃ b ∈ blocks, b.has pos

@[simp] theorem covered_cons (b : RecvQueueRecvBlock) (blocks : List RecvQueueRecvBlock)
    (pos : Nat) : covered (b :: blocks) pos ↔ b.has pos ∨ covered blocks pos := by
  simp [covered]

@[simp] theorem covered_append (left right : List RecvQueueRecvBlock) (pos : Nat) :
    covered (left ++ right) pos ↔ covered left pos ∨ covered right pos := by
  simp [covered, or_and_right, exists_or]

@[simp] theorem covered_reverse (blocks : List RecvQueueRecvBlock) (pos : Nat) :
    covered blocks.reverse pos ↔ covered blocks pos := by
  simp [covered]

/-- The position counts as received. -/
def covers (r : RecvBlocks) (pos : Nat) : Prop :=
  pos < r.ackStreamPos ∨ covered r.blocks pos

/-- No block is empty. -/
def Proper (r : RecvBlocks) : Prop :=
  ∀ b ∈ r.blocks, b.Proper

/-- The hull of a block and a range that touches it. -/
def joined (block : RecvQueueRecvBlock) (start stop : Nat) : RecvQueueRecvBlock :=
  { block with
    startStreamPos := min block.startStreamPos start
    endStreamPos := max block.endStreamPos stop }

variable {block : RecvQueueRecvBlock} {start stop : Nat} {r : RecvBlocks}

theorem joined_comm : ({ block with
    startStreamPos := min start block.startStreamPos
    endStreamPos := max stop block.endStreamPos } : RecvQueueRecvBlock) = joined block start stop := by
  unfold joined
  rw [Nat.min_comm, Nat.max_comm]

theorem joined_proper (hblock : block.Proper) (start stop : Nat) :
    (joined block start stop).Proper := by
  unfold RecvQueueRecvBlock.Proper at hblock ⊢
  show min block.startStreamPos start < max block.endStreamPos stop
  omega

theorem joined_has (hblock : block.Proper) (hrange : start < stop)
    (h : (calcRelaPos block.startStreamPos block.endStreamPos start stop).overlaps = true)
    (pos : Nat) : (joined block start stop).has pos ↔ block.has pos ∨ start ≤ pos ∧ pos < stop :=
  calcRelaPos_touch hblock hrange h pos

variable {rest : List RecvQueueRecvBlock}

variable {n : RecvQueueRecvBlock} {before : List RecvQueueRecvBlock}

theorem mergeRun_touch
    (latest : Option Nat) (h : (calcRelaPos block.startStreamPos block.endStreamPos n.startStreamPos
      n.endStreamPos).overlaps = true) :
    mergeRun block latest (n :: rest) =
      mergeRun (joined block n.startStreamPos n.endStreamPos)
        (if latest = some n.address then none else latest) rest := by
  rw [mergeRun, if_pos h]
  rfl

theorem mergeRun_stop
    (latest : Option Nat) (h : (calcRelaPos block.startStreamPos block.endStreamPos n.startStreamPos
      n.endStreamPos).overlaps = false) :
    mergeRun block latest (n :: rest) = (block, latest, n :: rest) := by
  rw [mergeRun, if_neg (by simp [h])]

/-- Absorbing neighbours neither adds nor loses a position. -/
theorem mergeRun_has (latest : Option Nat)
    {list : List RecvQueueRecvBlock} (hblock : block.Proper) (hlist : ∀ b ∈ list, b.Proper) :
    ((mergeRun block latest list).1.Proper ∧ ∀ b ∈ (mergeRun block latest list).2.2, b.Proper) ∧
    ∀ pos, (mergeRun block latest list).1.has pos ∨ covered (mergeRun block latest list).2.2 pos ↔
      block.has pos ∨ covered list pos := by
  induction list generalizing block latest with
  | nil => exact ⟨⟨hblock, hlist⟩, fun pos => Iff.rfl⟩
  | cons n rest ih =>
    have hn := hlist n (by simp)
    have hrest : ∀ b ∈ rest, b.Proper := fun b hb => hlist b (by simp [hb])
    cases htouch : (calcRelaPos block.startStreamPos block.endStreamPos n.startStreamPos
        n.endStreamPos).overlaps with
    | true =>
      rw [mergeRun_touch latest htouch]
      obtain ⟨hproper, hhas⟩ := ih (if latest = some n.address then none else latest)
        (joined_proper hblock n.startStreamPos n.endStreamPos) hrest
      refine ⟨hproper, fun pos => ?_⟩
      rw [hhas, joined_has hblock hn htouch, covered_cons, or_assoc]
      rfl
    | false =>
      rw [mergeRun_stop latest htouch]
      exact ⟨⟨hblock, hlist⟩, fun pos => Iff.rfl⟩

/-- The blocks of `r` hold the positions of those of `old`, and those from `start` to `stop`. -/
structure Added (old r : RecvBlocks) (start stop : Nat) : Prop where
  proper : r.Proper
  ack : r.ackStreamPos = old.ackStreamPos
  covered : ∀ pos, covered r.blocks pos ↔ covered old.blocks pos ∨ start ≤ pos ∧ pos < stop

/-- `r` counts the positions of `old` and those from `start` to `stop` as received. -/
structure Grown (old r : RecvBlocks) (start stop : Nat) : Prop where
  proper : r.Proper
  ack : old.ackStreamPos ≤ r.ackStreamPos
  covers : ∀ pos, r.covers pos ↔ old.covers pos ∨ start ≤ pos ∧ pos < stop

theorem Added.grown {old : RecvBlocks} (h : Added old r start stop) :
    Grown old r start stop where
  proper := h.proper
  ack := Nat.le_of_eq h.ack.symm
  covers := by
    intro pos
    unfold RecvBlocks.covers
    rw [h.ack, h.covered, or_assoc]

/-- `RecvQueueBlocksMerge` for a block that was joined with the range. -/
theorem Proper.blocksMerge (h : r.Proper) (latest : Option Nat) {after : List RecvQueueRecvBlock}
    (hblocks : r.blocks = before ++ block :: after) (hrange : start < stop)
    (htouch : (calcRelaPos block.startStreamPos block.endStreamPos start stop).overlaps = true) :
    Added r (r.blocksMerge latest before (joined block start stop) after) start stop := by
  have hblock : block.Proper := h block (by simp [hblocks])
  obtain ⟨⟨hmid, hproperAfter⟩, hhasAfter⟩ := mergeRun_has latest
    (joined_proper hblock start stop) fun b (hb : b ∈ after) => h b (by simp [hblocks, hb])
  obtain ⟨⟨hlast, hproperBefore⟩, hhasBefore⟩ :=
    mergeRun_has (mergeRun (joined block start stop) latest after).2.1 hmid
      fun b (hb : b ∈ before.reverse) => h b (by rw [hblocks]; simp at hb ⊢; exact .inl hb)
  refine ⟨?_, rfl, ?_⟩
  · intro b hb
    rcases mem_append.mp hb with hb | hb
    · exact hproperBefore b (mem_reverse.mp hb)
    · rcases mem_cons.mp hb with rfl | hb
      · exact hlast
      · exact hproperAfter b hb
  intro pos
  have hback := hhasBefore pos
  have hfront := hhasAfter pos
  rw [joined_has hblock hrange htouch] at hfront
  rw [covered_reverse] at hback
  rw [hblocks]
  show covered ((mergeRun _ _ before.reverse).2.2.reverse ++ (mergeRun _ _ before.reverse).1 ::
    (mergeRun _ latest after).2.2) pos ↔ _
  simp only [covered_append, covered_reverse, covered_cons]
  tauto

section

variable (h : r.Proper) (hrange : start < stop)
include h hrange

theorem Proper.newBlock
    {place : RecvQueueRecvBlock → List RecvQueueRecvBlock}
    (hplace : ∀ n b, b ∈ place n ↔ b = n ∨ b ∈ r.blocks) :
    Added r (r.newBlock start stop place) start stop := by
  refine ⟨?_, rfl, ?_⟩
  · intro b hb
    rcases (hplace _ b).mp hb with rfl | hb
    · exact hrange
    · exact h b hb
  intro pos
  show (∃ b ∈ place _, b.has pos) ↔ _
  simp only [hplace, or_and_right, exists_or, exists_eq_left, covered]
  exact or_comm

theorem Proper.addLoop (hblocks : r.blocks = before ++ rest)
    (prevBlock : Bool) : Added r (r.addLoop start stop before prevBlock rest).2 start stop := by
  induction rest generalizing before prevBlock with
  | nil =>
    show Added r (r.newBlock start stop fun n => before ++ [n]) start stop
    refine h.newBlock hrange fun n b => ?_
    rw [hblocks, append_nil, mem_append, mem_singleton, or_comm]
  | cons block rest ih =>
    unfold RecvBlocks.addLoop
    simp only [joined_comm]
    split
    case h_1 hrela =>
      split
      case isTrue hold =>
        refine ⟨h, rfl, fun pos => (or_iff_left_of_imp fun hpos => ?_).symm⟩
        exact ⟨block, by simp [hblocks], by omega, by omega⟩
      case isFalse => exact h.blocksMerge _ hblocks hrange (by rw [hrela]; rfl)
    case h_2 hrela => exact h.blocksMerge _ hblocks hrange (by rw [hrela]; rfl)
    case h_3 => exact ih (by simp [hblocks]) true
    case h_4 =>
    show Added r (r.newBlock start stop fun n =>
      if prevBlock then before ++ n :: block :: rest else n :: (before ++ block :: rest))
      start stop
    refine h.newBlock hrange fun n b => ?_
    rw [hblocks]
    split
    · simp
      tauto
    · simp

/-- `RecvQueueAddToBlocks`, which starts at the latest block or at the first. -/
theorem Proper.addToBlocks : Added r (r.addToBlocks start stop).2 start stop := by
  unfold RecvBlocks.addToBlocks
  split
  · split
    · exact h.addLoop hrange rfl false
    · exact h.addLoop hrange takeWhile_append_dropWhile.symm false
  · exact h.addLoop hrange rfl false

/-- `RecvQueueUpdateStreamPos` counts the positions of the range as received, and no others. -/
theorem Proper.updateStreamPos : Grown r (r.updateStreamPos start stop).2 start stop := by
  unfold RecvBlocks.updateStreamPos
  split
  case isTrue hold =>
    refine ⟨h, Nat.le_refl _, fun pos => (or_iff_left_of_imp fun hpos => .inl ?_).symm⟩
    show pos < r.ackStreamPos
    omega
  case isFalse hlater =>
  split
  case isTrue hinOrder =>
    -- the ack moves to the end of the range
    have hmove : Grown r { r with ackStreamPos := stop } start stop := by
      refine ⟨h, by show r.ackStreamPos ≤ stop; omega, fun pos => ?_⟩
      show pos < stop ∨ covered r.blocks pos ↔ (pos < r.ackStreamPos ∨ covered r.blocks pos) ∨ _
      by_cases hpos : covered r.blocks pos
      · simp [hpos]
      · simp only [hpos, or_false]
        omega
    split
    · exact hmove
    case h_2 block rest hblocks =>
    split
    case isFalse => exact hmove
    case isTrue htouch =>
    have hblock : block.Proper := h block (by simp [hblocks])
    have hhull := calcRelaPos_touch hblock hrange htouch
    refine ⟨fun b hb => h b (by rw [hblocks]; exact mem_cons_of_mem _ hb), ?_, fun pos => ?_⟩
    · show r.ackStreamPos ≤ max stop block.endStreamPos
      omega
    show pos < max stop block.endStreamPos ∨ covered rest pos ↔
      (pos < r.ackStreamPos ∨ covered r.blocks pos) ∨ _
    have hpos := hhull pos
    rw [hblocks, covered_cons]
    unfold RecvQueueRecvBlock.has
    by_cases hrest : covered rest pos
    · simp [hrest]
    · simp only [hrest, or_false]
      omega
  case isFalse =>
    exact (h.addToBlocks hrange).grown

end

end RecvBlocks

/-! ## The buffers -/

/-- Reading back from a buffer: the bytes that were copied, and around them those that were there. -/
theorem getElem?_overwrite {data bytes : List UInt8} {offset : Nat}
    (hfit : offset + bytes.length ≤ data.length) (i : Nat) :
    (overwrite data offset bytes)[i]? =
      if offset ≤ i ∧ i < offset + bytes.length then bytes[i - offset]? else data[i]? := by
  unfold overwrite
  have htake : (data.take offset).length = offset := by
    rw [length_take]
    omega
  by_cases hbefore : i < offset
  · rw [append_assoc, getElem?_append_left (by omega), List.getElem?_take_of_lt hbefore,
      if_neg (by omega)]
  by_cases hin : i < offset + bytes.length
  · rw [append_assoc, getElem?_append_right (by omega), htake,
      getElem?_append_left (by omega), if_pos (by omega)]
  rw [getElem?_append_right (by rw [length_append]; omega), length_append, htake,
    List.getElem?_drop, if_neg (by omega)]
  congr 1
  omega

@[simp] theorem length_overwrite {data bytes : List UInt8} {offset : Nat}
    (hfit : offset + bytes.length ≤ data.length) :
    (overwrite data offset bytes).length = data.length := by
  unfold overwrite
  simp only [length_append, length_take, length_drop]
  omega

namespace RecvStream

/-- The buffers, from `start` on, hold an expected byte at every position that counts as received,
below their `endStreamPos`. -/
def Laid (expected : Nat → UInt8 → Prop) (covered : Nat → Prop) :
    Nat → List RecvQueueRecvBuffer → Prop
  | start, [] => ∀ pos, start ≤ pos → ¬ covered pos
  | start, b :: rest =>
    b.data ≠ [] ∧
    (b.endStreamPos = 0 ∨ start < b.endStreamPos ∧ b.endStreamPos ≤ start + b.len) ∧
    (∀ pos, start ≤ pos → pos < start + b.len → covered pos →
      pos < b.endStreamPos ∧ ∃ x, b.data[pos - start]? = some x ∧ expected pos x) ∧
    Laid expected covered (start + b.len) rest

variable {expected : Nat → UInt8 → Prop} {covered covered' : Nat → Prop} {start : Nat}
  {buffers : List RecvQueueRecvBuffer}

variable {b : RecvQueueRecvBuffer} {endStreamPos : Nat}

theorem len_pos (h : b.data ≠ []) : 0 < b.len :=
  length_pos_iff.mpr h

/-- Only the positions from `start` on matter, and fewer of them are easier to hold. -/
theorem Laid.mono (h : Laid expected covered start buffers)
    (hcovered : ∀ pos, start ≤ pos → covered' pos → covered pos) :
    Laid expected covered' start buffers := by
  induction buffers generalizing start with
  | nil => exact fun pos hpos hc => h pos hpos (hcovered pos hpos hc)
  | cons _ _ ih =>
    obtain ⟨hdata, hend, hbytes, hrest⟩ := h
    exact ⟨hdata, hend, fun pos hlo hhi hc => hbytes pos hlo hhi (hcovered pos hlo hc),
      ih hrest fun pos hpos hc => hcovered pos (by omega) hc⟩

theorem Laid.weaken {expected' : Nat → UInt8 → Prop} (h : Laid expected covered start buffers)
    (hexpected : ∀ pos x, expected pos x → expected' pos x) :
    Laid expected' covered start buffers := by
  induction buffers generalizing start with
  | nil => exact h
  | cons _ _ ih =>
    obtain ⟨hdata, hend, hbytes, hrest⟩ := h
    refine ⟨hdata, hend, fun pos hlo hhi hc => ?_, ih hrest⟩
    obtain ⟨hlt, x, hx, hexp⟩ := hbytes pos hlo hhi hc
    exact ⟨hlt, x, hx, hexpected pos x hexp⟩

/-- Buffers that were never written to may lie anywhere when nothing is received there. -/
theorem laid_unused {start : Nat} (hunused : ∀ b ∈ buffers, b.data ≠ [] ∧ b.endStreamPos = 0)
    (hcovered : ∀ pos, start ≤ pos → ¬ covered pos) : Laid expected covered start buffers := by
  induction buffers generalizing start with
  | nil => exact hcovered
  | cons b _ ih =>
    obtain ⟨hdata, hend⟩ := hunused b (by simp)
    exact ⟨hdata, .inl hend, fun pos hlo _ hc => absurd hc (hcovered pos hlo),
      ih (fun c hc => hunused c (by simp [hc])) fun pos hpos => hcovered pos (by omega)⟩

section

variable (h : Laid expected covered start buffers)
include h

theorem Laid.not_covered
    (hunused : ∀ b ∈ buffers, b.endStreamPos = 0) : ∀ pos, start ≤ pos → ¬ covered pos := by
  induction buffers generalizing start with
  | nil => exact h
  | cons b _ ih =>
    obtain ⟨_, _, hbytes, hrest⟩ := h
    have hend := hunused b (by simp)
    intro pos hlo hc
    by_cases hhi : pos < start + b.len
    · have := (hbytes pos hlo hhi hc).1
      omega
    · exact ih hrest (fun c hc => hunused c (by simp [hc])) pos (by omega) hc

theorem Laid.addBuffer (hdata : b.data ≠ []) (hend : b.endStreamPos = 0) :
    Laid expected covered start (buffers ++ [b]) := by
  induction buffers generalizing start with
  | nil =>
    exact laid_unused (by simpa using ⟨hdata, hend⟩) h
  | cons _ _ ih =>
    obtain ⟨ha, haend, hbytes, hrest⟩ := h
    exact ⟨ha, haend, hbytes, ih hrest⟩

theorem Laid.endStreamPos_cases :
    ∀ b ∈ buffers, b.data ≠ [] ∧ (b.endStreamPos = 0 ∨ start < b.endStreamPos) := by
  induction buffers generalizing start with
  | nil => simp
  | cons _ _ ih =>
    obtain ⟨ha, haend, _, hrest⟩ := h
    intro b hb
    rcases mem_cons.mp hb with rfl | hb
    · exact ⟨ha, haend.imp_right And.left⟩
    · obtain ⟨hdata, hend⟩ := ih hrest b hb
      exact ⟨hdata, hend.imp_right fun hlt => by omega⟩

end

variable {streamPos : Nat} {data : List UInt8}

/-- One buffer of the copy loop: the bytes go to their positions, and the others stay. -/
theorem overwrite_holds {nCopy : Nat}
    (hbytes : ∀ pos, start ≤ pos → pos < start + b.len → covered pos →
      pos < b.endStreamPos ∧ ∃ x, b.data[pos - start]? = some x ∧ expected pos x)
    (hstart : start ≤ streamPos) (hfit : streamPos + nCopy ≤ start + b.len)
    (hcount : nCopy ≤ data.length)
    (hdata : ∀ i x, data[i]? = some x → expected (streamPos + i) x) :
    ∀ pos, start ≤ pos → pos < start + b.len →
      covered pos ∨ streamPos ≤ pos ∧ pos < streamPos + nCopy →
      pos < max b.endStreamPos (streamPos + nCopy) ∧
        ∃ x, (overwrite b.data (streamPos - start) (data.take nCopy))[pos - start]? = some x ∧
          expected pos x := by
  have hlen : (data.take nCopy).length = nCopy := by
    rw [length_take]
    omega
  unfold RecvQueueRecvBuffer.len at hbytes hfit
  intro pos hlo hhi hpos
  rw [getElem?_overwrite (by omega), hlen]
  by_cases hnew : streamPos ≤ pos ∧ pos < streamPos + nCopy
  · -- a byte just copied
    rw [if_pos (by omega), List.getElem?_take_of_lt (by omega),
      show pos - start - (streamPos - start) = pos - streamPos by omega]
    obtain ⟨x, hx⟩ : ∃ x, data[pos - streamPos]? = some x :=
      ⟨_, List.getElem?_eq_getElem (by omega)⟩
    have hexp := hdata _ x hx
    rw [show streamPos + (pos - streamPos) = pos by omega] at hexp
    exact ⟨by omega, x, hx, hexp⟩
  · rw [if_neg (by omega)]
    obtain ⟨hlt, hx⟩ := hbytes pos hlo hhi (hpos.resolve_right hnew)
    exact ⟨by omega, hx⟩

theorem copyLoop_nil (start streamPos endStreamPos : Nat) (buffers : List RecvQueueRecvBuffer) :
    copyLoop start streamPos [] endStreamPos buffers = (0, buffers, endStreamPos) := by
  cases buffers <;> simp [RecvStream.copyLoop]

section

variable (endStreamPos : Nat) (h : Laid expected covered start buffers) (hstart : start ≤ streamPos)
include h hstart

/-- The copy loop of `RecvQueueSavePayload`. -/
theorem Laid.copyLoop
    (hin : ∀ b ∈ buffers.head?, streamPos < start + b.len)
    (hdata : ∀ i x, data[i]? = some x → expected (streamPos + i) x) :
    (copyLoop start streamPos data endStreamPos buffers).1 ≤ data.length ∧
    Laid expected (fun pos => covered pos ∨ streamPos ≤ pos ∧
        pos < streamPos + (copyLoop start streamPos data endStreamPos buffers).1) start
      (copyLoop start streamPos data endStreamPos buffers).2.1 := by
  induction buffers generalizing start streamPos data endStreamPos with
  | nil =>
    refine ⟨Nat.zero_le _, fun pos hpos hc => ?_⟩
    rcases hc with hc | hc
    · exact h pos hpos hc
    · simp only [RecvStream.copyLoop] at hc
      omega
  | cons b rest ih =>
    have hlt : streamPos < start + b.len := hin b rfl
    by_cases hne : data = []
    · rw [hne, copyLoop_nil]
      refine ⟨Nat.zero_le _, h.mono fun pos _ hc => hc.resolve_right fun hpos => ?_⟩
      omega
    obtain ⟨hbdata, hend, hbytes, hrest⟩ := h
    have hpos : 0 < data.length := length_pos_iff.mpr hne
    simp only [RecvStream.copyLoop, if_neg hne]
    -- the number of bytes that go into this buffer
    generalize hcopy : min data.length (b.len - (streamPos - start)) = nCopy
    have hfit : streamPos + nCopy ≤ start + b.len := by omega
    have hlen : RecvQueueRecvBuffer.len { b with
        data := overwrite b.data (streamPos - start) (data.take nCopy)
        endStreamPos := max b.endStreamPos (streamPos + nCopy) } = b.len := by
      refine length_overwrite ?_
      rw [length_take]
      unfold RecvQueueRecvBuffer.len at hfit
      omega
    have hholds := overwrite_holds hbytes hstart hfit (show nCopy ≤ data.length by omega) hdata
    -- the bytes left over start at the next buffer
    have hnext : ∀ r, r = RecvStream.copyLoop (start + b.len) (streamPos + nCopy)
        (data.drop nCopy) (max endStreamPos (max b.endStreamPos (streamPos + nCopy))) rest →
        r.1 ≤ data.length - nCopy ∧ (r.1 = 0 ∨ streamPos + nCopy = start + b.len) ∧
        Laid expected (fun pos => covered pos ∨ streamPos ≤ pos ∧
          pos < streamPos + nCopy + r.1) (start + b.len) r.2.1 := by
      rintro r rfl
      by_cases hall : data.length ≤ nCopy
      · rw [drop_eq_nil_of_le hall, copyLoop_nil]
        refine ⟨Nat.zero_le _, .inl rfl, hrest.mono fun pos hpos hc =>
          hc.resolve_right fun hpos => ?_⟩
        omega
      have hnext : streamPos + nCopy = start + b.len := by omega
      have hnextIn : ∀ c ∈ rest.head?, streamPos + nCopy < start + b.len + c.len := by
        intro c hc
        have hcpos := len_pos ((hrest.endStreamPos_cases c (List.mem_of_mem_head? hc)).1)
        omega
      have hnextData : ∀ i x, (data.drop nCopy)[i]? = some x →
          expected (streamPos + nCopy + i) x := by
        intro i x hx
        rw [List.getElem?_drop] at hx
        rw [Nat.add_assoc]
        exact hdata _ x hx
      obtain ⟨hsave, hlaid⟩ := ih (max endStreamPos (max b.endStreamPos (streamPos + nCopy)))
        hrest (Nat.le_of_eq hnext.symm) hnextIn hnextData
      rw [length_drop] at hsave
      exact ⟨hsave, .inr hnext, hlaid.mono fun pos hpos hc => hc.imp_right fun hc => by omega⟩
    generalize RecvStream.copyLoop (start + b.len) (streamPos + nCopy) (data.drop nCopy)
      (max endStreamPos (max b.endStreamPos (streamPos + nCopy))) rest = r at hnext ⊢
    obtain ⟨hsave, hzero, hlaid⟩ := hnext r rfl
    refine ⟨by show nCopy + r.1 ≤ data.length; omega, ?_⟩
    show Laid expected (fun pos => covered pos ∨ streamPos ≤ pos ∧
      pos < streamPos + (nCopy + r.1)) start (_ :: r.2.1)
    rw [← Nat.add_assoc]
    refine ⟨?_, .inr ?_, ?_, ?_⟩
    · exact fun hnil => absurd (congrArg List.length hnil) (by
        rw [show List.length _ = _ from hlen]
        simp only [length_nil]
        omega)
    · rw [hlen]
      show start < max b.endStreamPos (streamPos + nCopy) ∧
        max b.endStreamPos (streamPos + nCopy) ≤ start + b.len
      omega
    · rw [hlen]
      intro pos hlo hhi hc
      exact hholds pos hlo hhi (hc.imp_right fun hc => by omega)
    · rw [hlen]
      exact hlaid

/-- The search of `RecvQueueSavePayload`, and the copy. -/
theorem Laid.saveFrom
    (hdata : ∀ i x, data[i]? = some x → expected (streamPos + i) x) :
    (saveFrom start streamPos data endStreamPos buffers).1 ≤ data.length ∧
    Laid expected (fun pos => covered pos ∨ streamPos ≤ pos ∧
        pos < streamPos + (saveFrom start streamPos data endStreamPos buffers).1) start
      (saveFrom start streamPos data endStreamPos buffers).2.1 := by
  induction buffers generalizing start with
  | nil =>
    refine ⟨Nat.zero_le _, fun pos hpos hc => ?_⟩
    rcases hc with hc | hc
    · exact h pos hpos hc
    · simp only [RecvStream.saveFrom] at hc
      omega
  | cons _ _ ih =>
    unfold RecvStream.saveFrom
    split
    case isTrue hhere =>
      refine h.copyLoop endStreamPos hstart (fun c hc => ?_) hdata
      cases hc
      exact hhere.2
    case isFalse hlater =>
    obtain ⟨hbdata, hend, hbytes, hrest⟩ := h
    obtain ⟨hsave, hlaid⟩ := ih hrest (by omega)
    refine ⟨hsave, hbdata, hend, ?_, hlaid⟩
    intro pos hlo hhi hc
    exact hbytes pos hlo hhi (hc.resolve_right fun hpos => by omega)

end

/-- No buffer ends behind the end of the stream. -/
def Marked (endStreamPos : Nat) (buffers : List RecvQueueRecvBuffer) : Prop :=
  ∀ b ∈ buffers, b.endStreamPos ≤ endStreamPos

theorem Marked.copyLoop (h : Marked endStreamPos buffers)
    (start streamPos : Nat) (data : List UInt8) :
    endStreamPos ≤ (copyLoop start streamPos data endStreamPos buffers).2.2 ∧
    Marked (copyLoop start streamPos data endStreamPos buffers).2.2
      (copyLoop start streamPos data endStreamPos buffers).2.1 := by
  induction buffers generalizing start streamPos data endStreamPos with
  | nil => exact ⟨Nat.le_refl _, h⟩
  | cons b rest ih =>
    by_cases hne : data = []
    · rw [hne, copyLoop_nil]
      exact ⟨Nat.le_refl _, h⟩
    simp only [RecvStream.copyLoop, if_neg hne]
    generalize min data.length (b.len - (streamPos - start)) = nCopy
    have hrest : Marked (max endStreamPos (max b.endStreamPos (streamPos + nCopy))) rest :=
      fun c hc => Nat.le_trans (h c (by simp [hc])) (Nat.le_max_left _ _)
    obtain ⟨hle, hmarked⟩ := ih hrest (start + b.len) (streamPos + nCopy) (data.drop nCopy)
    refine ⟨Nat.le_trans (Nat.le_max_left _ _) hle, ?_⟩
    intro c hc
    rcases mem_cons.mp hc with rfl | hc
    · exact Nat.le_trans (Nat.le_max_right _ _) hle
    · exact hmarked c hc

theorem Marked.saveFrom (h : Marked endStreamPos buffers)
    (start streamPos : Nat) (data : List UInt8) :
    endStreamPos ≤ (saveFrom start streamPos data endStreamPos buffers).2.2 ∧
    Marked (saveFrom start streamPos data endStreamPos buffers).2.2
      (saveFrom start streamPos data endStreamPos buffers).2.1 := by
  induction buffers generalizing start with
  | nil => exact ⟨Nat.le_refl _, h⟩
  | cons b _ ih =>
    unfold RecvStream.saveFrom
    split
    · exact h.copyLoop start streamPos data
    obtain ⟨hle, hmarked⟩ := ih (fun c hc => h c (by simp [hc])) (start + b.len)
    refine ⟨hle, ?_⟩
    intro c hc
    rcases mem_cons.mp hc with rfl | hc
    · exact Nat.le_trans (h c (by simp)) hle
    · exact hmarked c hc

/-! ## Popping buffers -/

/-- The bytes of popped buffers, as their callbacks get them. -/
def handed (popped : List RecvQueueRecvBuffer) : List UInt8 :=
  popped.flatMap fun b => b.data.take (b.endStreamPos - b.startStreamPos)

theorem handed_append (left right : List RecvQueueRecvBuffer) :
    handed (left ++ right) = handed left ++ handed right :=
  flatMap_append

/-- Popped buffers lie one behind another, from `start` to `stop`, and none of them is empty. -/
def Consecutive : Nat → List RecvQueueRecvBuffer → Nat → Prop
  | start, [], stop => start = stop
  | start, b :: rest, stop =>
    b.startStreamPos = start ∧ start < b.endStreamPos ∧ Consecutive b.endStreamPos rest stop

/-- What `RecvQueuePopCompleteBuffers` takes off the front. -/
structure Popped (expected : Nat → UInt8 → Prop) (start stop : Nat)
    (popped : List RecvQueueRecvBuffer) : Prop where
  le : start ≤ stop
  consecutive : Consecutive start popped stop
  length : (handed popped).length = stop - start
  bytes : ∀ i x, (handed popped)[i]? = some x → expected (start + i) x
  nonempty : ∀ b ∈ popped, b.data.take (b.endStreamPos - b.startStreamPos) ≠ []

theorem popped_nil (start : Nat) : Popped expected start start [] where
  le := Nat.le_refl _
  consecutive := rfl
  length := (Nat.sub_self start).symm
  bytes := by simp [handed]
  nonempty := by simp

/-- A buffer whose bytes up to its end are all received is popped in front of others. -/
theorem Popped.cons {stop : Nat} {popped : List RecvQueueRecvBuffer}
    (h : Popped expected b.endStreamPos stop popped) (hlt : start < b.endStreamPos)
    (hlen : b.endStreamPos ≤ start + b.len)
    (hbytes : ∀ pos, start ≤ pos → pos < b.endStreamPos →
      ∃ x, b.data[pos - start]? = some x ∧ expected pos x) :
    Popped expected start stop ({ b with startStreamPos := start } :: popped) := by
  have htake : (b.data.take (b.endStreamPos - start)).length = b.endStreamPos - start := by
    rw [length_take]
    unfold RecvQueueRecvBuffer.len at hlen
    omega
  have hle := h.le
  have hhanded : handed ({ b with startStreamPos := start } :: popped) =
      b.data.take (b.endStreamPos - start) ++ handed popped := rfl
  refine ⟨by omega, ⟨rfl, hlt, h.consecutive⟩, ?_, ?_, ?_⟩
  · rw [hhanded, length_append, htake, h.length]
    omega
  · intro i x hx
    rw [hhanded] at hx
    by_cases hi : i < b.endStreamPos - start
    · rw [getElem?_append_left (by omega), List.getElem?_take_of_lt hi] at hx
      obtain ⟨y, hy, hexp⟩ := hbytes (start + i) (by omega) (by omega)
      rw [Nat.add_sub_cancel_left, hx] at hy
      exact Option.some.inj hy ▸ hexp
    · rw [getElem?_append_right (by omega), htake] at hx
      have hexp := h.bytes _ x hx
      rwa [show b.endStreamPos + (i - (b.endStreamPos - start)) = start + i by omega] at hexp
  intro c hc
  rcases mem_cons.mp hc with rfl | hc
  · refine ne_nil_of_length_pos ?_
    show 0 < (b.data.take (b.endStreamPos - start)).length
    omega
  · exact h.nonempty c hc

/-- A partly filled buffer is only popped when nothing is received behind its end. -/
theorem Laid.rebase {rest : List RecvQueueRecvBuffer}
    {ackStreamPos : Nat} (h : Laid expected covered start (b :: rest))
    (hmarked : Marked endStreamPos (b :: rest)) (hack : ∀ pos < ackStreamPos, covered pos)
    (hend : b.endStreamPos ≠ 0) (hgap : endStreamPos ≤ ackStreamPos) :
    Laid expected covered b.endStreamPos rest := by
  obtain ⟨_, hbend, hbytes, hrest⟩ := h
  by_cases hfull : b.endStreamPos = start + b.len
  · exact hfull ▸ hrest
  -- the position behind the last byte is not received, so the ack and the stream end there
  have hackEnd : ackStreamPos ≤ b.endStreamPos := by
    by_contra hlt
    have := (hbytes b.endStreamPos (by omega) (by omega) (hack _ (by omega))).1
    omega
  have hunused : ∀ c ∈ rest, c.data ≠ [] ∧ c.endStreamPos = 0 := by
    intro c hc
    obtain ⟨hdata, hcend⟩ := hrest.endStreamPos_cases c hc
    have hcmark := hmarked c (by simp [hc])
    exact ⟨hdata, by omega⟩
  refine laid_unused hunused fun pos hpos hc => ?_
  by_cases hin : pos < start + b.len
  · have := (hbytes pos (by omega) hin hc).1
    omega
  · exact hrest.not_covered (fun c hc => (hunused c hc).2) pos (by omega) hc

theorem Laid.popLoop (force : Bool) {ackStreamPos : Nat}
    (h : Laid expected covered start buffers) (hmarked : Marked endStreamPos buffers)
    (hack : ∀ pos < ackStreamPos, covered pos) (hstart : start ≤ ackStreamPos) :
    Popped expected start (popLoop force ackStreamPos endStreamPos start buffers).2.1
      (popLoop force ackStreamPos endStreamPos start buffers).1 ∧
    (popLoop force ackStreamPos endStreamPos start buffers).2.1 ≤ ackStreamPos ∧
    Laid expected covered (popLoop force ackStreamPos endStreamPos start buffers).2.1
      (popLoop force ackStreamPos endStreamPos start buffers).2.2 ∧
    (popLoop force ackStreamPos endStreamPos start buffers).2.2 <:+ buffers := by
  induction buffers generalizing start with
  | nil => exact ⟨popped_nil start, hstart, h, suffix_refl _⟩
  | cons b rest ih =>
    unfold RecvStream.popLoop
    split
    case isFalse => exact ⟨popped_nil start, hstart, h, suffix_refl _⟩
    case isTrue hnotify =>
    have hmark := hmarked b (by simp)
    have hend : b.endStreamPos ≠ 0 ∧ b.endStreamPos ≤ ackStreamPos := by
      rcases hnotify with ⟨hfull, hle⟩ | ⟨_, hne, hgap⟩
      · have := len_pos h.1
        omega
      · omega
    have hrest : Laid expected covered b.endStreamPos rest := by
      rcases hnotify with ⟨hfull, _⟩ | ⟨_, hne, hgap⟩
      · exact hfull ▸ h.2.2.2
      · exact h.rebase hmarked hack hne hgap
    obtain ⟨_, hbend, hbytes, _⟩ := h
    obtain ⟨hlo, hhi⟩ := hbend.resolve_left hend.1
    obtain ⟨hpopped, hle, hlaid, hsuffix⟩ :=
      ih hrest (fun c hc => hmarked c (by simp [hc])) hend.2
    refine ⟨hpopped.cons hlo hhi fun pos hpos hlt => ?_, hle, hlaid,
      hsuffix.trans (suffix_cons b rest)⟩
    exact (hbytes pos hpos (by omega) (hack pos (by omega))).2

end RecvStream

/-! ## The invariant -/

namespace RecvQueue

/-- The receive queue is consistent, for the bytes that may stand at each position. -/
structure Wf (expected : Nat → UInt8 → Prop) (queue : RecvQueue) : Prop where
  proper : queue.recvBlock.Proper
  laid : RecvStream.Laid expected queue.recvBlock.covers queue.recvStream.readStreamPos
    queue.recvStream.buffers
  marked : RecvStream.Marked queue.recvStream.endStreamPos queue.recvStream.buffers
  read_le : queue.recvStream.readStreamPos ≤ queue.recvBlock.ackStreamPos

variable {expected : Nat → UInt8 → Prop} {queue : RecvQueue}

theorem wf_create (expected : Nat → UInt8 → Prop) (streamPos : Nat) :
    (create streamPos).Wf expected where
  proper := by simp [RecvBlocks.Proper, create]
  laid := by
    intro pos hpos hc
    rcases hc with hc | ⟨b, hb, _⟩
    · exact absurd hc (Nat.not_lt.mpr hpos)
    · cases hb
  marked := by simp [RecvStream.Marked, create]
  read_le := Nat.le_refl _

theorem Wf.weaken (h : queue.Wf expected) {expected' : Nat → UInt8 → Prop}
    (hexpected : ∀ pos x, expected pos x → expected' pos x) : queue.Wf expected' :=
  ⟨h.proper, h.laid.weaken hexpected, h.marked, h.read_le⟩

variable {data : List UInt8} {streamPos : Nat}

variable {userData : Nat} {next : RecvQueue} {payload : List UInt8}

theorem addBuffer_fields {address : Nat}
    (hadd : queue.addBuffer address data userData = some next) :
    next.recvBlock = queue.recvBlock ∧
      next.recvStream.readStreamPos = queue.recvStream.readStreamPos := by
  unfold RecvQueue.addBuffer at hadd
  split at hadd
  · cases hadd
  · split at hadd <;> cases hadd
    exact ⟨rfl, rfl⟩

variable (h : queue.Wf expected)
include h

theorem Wf.addBuffer {address : Nat} (hadd : queue.addBuffer address data userData = some next) :
    next.Wf expected := by
  unfold RecvQueue.addBuffer at hadd
  split at hadd
  · cases hadd
  case isFalse hdata =>
  split at hadd
  · cases hadd
  cases hadd
  refine ⟨h.proper, h.laid.addBuffer hdata rfl, ?_, h.read_le⟩
  intro b hb
  rcases mem_append.mp hb with hb | hb
  · exact h.marked b hb
  · rw [mem_singleton.mp hb]
    exact Nat.zero_le _

/-- What saving up to `length` bytes at a position leaves: how much is saved, and the stream with it. -/
def Saved (expected : Nat → UInt8 → Prop) (queue : RecvQueue) (streamPos length : Nat)
    (result : Nat × RecvStream) : Prop :=
  result.1 ≤ length ∧
  RecvStream.Laid expected
    (fun pos => queue.recvBlock.covers pos ∨ streamPos ≤ pos ∧ pos < streamPos + result.1)
    queue.recvStream.readStreamPos result.2.buffers ∧
  RecvStream.Marked result.2.endStreamPos result.2.buffers ∧
  result.2.readStreamPos = queue.recvStream.readStreamPos

/-- The part of `RecvQueueSavePayload` that is not read yet. -/
theorem Wf.saveUnread (hunread : queue.recvStream.readStreamPos ≤ streamPos)
    (hdata : ∀ i x, data[i]? = some x → expected (streamPos + i) x) :
    Saved expected queue streamPos data.length (queue.recvStream.saveUnread streamPos data) := by
  obtain ⟨hsave, hlaid⟩ := h.laid.saveFrom queue.recvStream.endStreamPos hunread hdata
  obtain ⟨_, hmarked⟩ := h.marked.saveFrom queue.recvStream.readStreamPos streamPos data
  exact ⟨hsave, hlaid, hmarked, rfl⟩

theorem Wf.savePayload (hdata : ∀ i x, data[i]? = some x → expected (streamPos + i) x) :
    Saved expected queue streamPos data.length (queue.recvStream.savePayload streamPos data) := by
  unfold RecvStream.savePayload
  split
  case isTrue hread =>
    simp only
    split
    case isTrue hskip =>
      -- the part that was read is skipped, and the rest starts at the read position
      have hrest : ∀ i x, (data.drop (queue.recvStream.readStreamPos - streamPos))[i]? = some x →
          expected (queue.recvStream.readStreamPos + i) x := by
        intro i x hx
        rw [List.getElem?_drop] at hx
        have hexp := hdata _ x hx
        rwa [show streamPos + (queue.recvStream.readStreamPos - streamPos + i) =
          queue.recvStream.readStreamPos + i by omega] at hexp
      obtain ⟨hsave, hlaid, hmarked, hpos⟩ := h.saveUnread (Nat.le_refl _) hrest
      rw [length_drop] at hsave
      refine ⟨by omega, hlaid.mono fun pos hpos hc => hc.imp_right fun hc => ?_, hmarked, hpos⟩
      omega
    case isFalse hskip =>
    refine ⟨Nat.le_refl _, h.laid.mono fun pos hpos hc => hc.resolve_right ?_, h.marked, rfl⟩
    intro hc
    omega
  case isFalse hread => exact h.saveUnread (Nat.not_lt.mp hread) hdata

/-- `RecvQueueWriteData`, for bytes that may stand at their positions. -/
theorem Wf.writeData (hpayload : ∀ i x, payload[i]? = some x → expected (streamPos + i) x) :
    (queue.writeData streamPos payload).2.Wf expected ∧
      (queue.writeData streamPos payload).2.recvStream.readStreamPos =
        queue.recvStream.readStreamPos := by
  unfold RecvQueue.writeData
  split
  · exact ⟨h, rfl⟩
  split
  · exact ⟨h, rfl⟩
  obtain ⟨_, hlaid, hmarked, hread⟩ := h.savePayload hpayload
  generalize hsave : queue.recvStream.savePayload streamPos payload = saved at *
  obtain ⟨saveLen, stream⟩ := saved
  simp only at hlaid hmarked hread ⊢
  split
  case isTrue hzero =>
    refine ⟨⟨h.proper, ?_, hmarked, hread ▸ h.read_le⟩, hread⟩
    rw [hread]
    exact hlaid.mono fun pos _ hc => .inl hc
  case isFalse hsome =>
  have hgrown := h.proper.updateStreamPos (show streamPos < streamPos + saveLen by omega)
  refine ⟨⟨hgrown.proper, ?_, hmarked, ?_⟩, hread⟩
  · rw [hread]
    exact hlaid.mono fun pos _ hc => (hgrown.covers pos).mp hc
  · rw [hread]
    exact Nat.le_trans h.read_le hgrown.ack

theorem Wf.writeData_ack_le (streamPos : Nat) (payload : List UInt8) :
    queue.recvBlock.ackStreamPos ≤ (queue.writeData streamPos payload).2.recvBlock.ackStreamPos := by
  unfold RecvQueue.writeData
  split
  · exact Nat.le_refl _
  split
  · exact Nat.le_refl _
  generalize queue.recvStream.savePayload streamPos payload = saved
  obtain ⟨saveLen, stream⟩ := saved
  simp only
  split
  · exact Nat.le_refl _
  case isFalse hsome =>
    exact (h.proper.updateStreamPos (show streamPos < streamPos + saveLen by omega)).ack

/-- `RecvQueuePopCompleteBuffers`: the bytes handed out are expected at their positions. -/
theorem Wf.popCompleteBuffers (force : Bool) :
    (queue.popCompleteBuffers force).2.Wf expected ∧
    RecvStream.Popped expected queue.recvStream.readStreamPos
      (queue.popCompleteBuffers force).2.recvStream.readStreamPos
      (queue.popCompleteBuffers force).1 := by
  obtain ⟨hpopped, hle, hlaid, hsuffix⟩ := h.laid.popLoop force h.marked
    (fun pos hpos => .inl hpos) h.read_le
  exact ⟨⟨h.proper, hlaid, fun b hb => h.marked b (hsuffix.subset hb), hle⟩, hpopped⟩

end RecvQueue

end Bdt
