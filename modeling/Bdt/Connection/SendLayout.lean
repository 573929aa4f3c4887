import Bdt.Connection.SendQueue

/-!
# The layout of the users' buffers

`SendingBuffers.Laid s p` says that the queued buffers lie one behind another up to the end of the
stream, that the bytes below `p` are cut and those from `p` on are not, and that `curr` points to
the buffer that holds the byte at `p`. `Laid.generateBlock` shows that the next block then starts at
`p`. An ack beyond the bytes that were sent can pop the buffer `curr` points to; the pointer then
dangles for good, and cutting a block from it is undefined.
-/

namespace Bdt

open List

namespace SendingBuffers

/-- The buffers lie one behind another from `start` to `stop`. -/
def Chain : Nat → List SendQueueSendBuffer → Nat → Prop
  | start, [], stop => start = stop
  | start, b :: rest, stop =>
    b.startStreamPos = start ∧ b.endStreamPos = start + b.len ∧ 0 < b.len ∧
      Chain b.endStreamPos rest stop

/-- The pointer to the first buffer with a byte at or after `p`. -/
def cursorAt (p : Nat) : List SendQueueSendBuffer → SendCursor
  | [] => .null
  | b :: rest => if p < b.endStreamPos then .buffer b.startStreamPos else cursorAt p rest

/-- The bytes below `p` are cut into blocks, the others are not. -/
structure Laid (s : SendingBuffers) (p : Nat) : Prop where
  chain : ∃ base ≤ p, Chain base s.buffers s.streamPos
  offset : ∀ b ∈ s.buffers, b.offsetStreamPos = max b.startStreamPos (min p b.endStreamPos)
  curr : s.curr = cursorAt p s.buffers
  unSend : p + s.unSendLength = s.streamPos
  underflow : s.underflow = false

/-! ## Chains -/

variable {start stop p : Nat} {buffers left right : List SendQueueSendBuffer} {s : SendingBuffers}

theorem Chain.le (h : Chain start buffers stop) : start ≤ stop := by
  induction buffers generalizing start with
  | nil => exact Nat.le_of_eq h
  | cons _ _ ih =>
    obtain ⟨_, hend, _, hrest⟩ := h
    have := ih hrest
    omega

/-- Every buffer of a chain is not empty and lies inside it. -/
theorem Chain.mem (h : Chain start buffers stop) :
    ∀ b ∈ buffers, start ≤ b.startStreamPos ∧ b.startStreamPos < b.endStreamPos ∧
      b.endStreamPos = b.startStreamPos + b.len ∧ b.endStreamPos ≤ stop := by
  induction buffers generalizing start with
  | nil => simp
  | cons _ _ ih =>
    obtain ⟨hstart, hend, hlen, hrest⟩ := h
    intro c hc
    rcases mem_cons.mp hc with rfl | hc
    · have := hrest.le
      omega
    · have := ih hrest c hc
      omega

theorem Chain.append {middle : Nat} (hl : Chain start left middle) (hr : Chain middle right stop) :
    Chain start (left ++ right) stop := by
  induction left generalizing start with
  | nil => exact (show start = middle from hl) ▸ hr
  | cons _ _ ih =>
    obtain ⟨hstart, hend, hlen, hrest⟩ := hl
    exact ⟨hstart, hend, hlen, ih hrest⟩

theorem Chain.split (h : Chain start (left ++ right) stop) :
    ∃ middle, Chain start left middle ∧ Chain middle right stop := by
  induction left generalizing start with
  | nil => exact ⟨start, rfl, h⟩
  | cons _ _ ih =>
    obtain ⟨hstart, hend, hlen, hrest⟩ := h
    obtain ⟨middle, hl, hr⟩ := ih hrest
    exact ⟨middle, ⟨hstart, hend, hlen, hl⟩, hr⟩

theorem Chain.find (h : Chain start buffers stop) (hstart : start ≤ p) (hstop : p < stop) :
    ∃ left b right, buffers = left ++ b :: right ∧ b.startStreamPos ≤ p ∧ p < b.endStreamPos ∧
      (∀ c ∈ left, c.startStreamPos < c.endStreamPos ∧ c.endStreamPos ≤ b.startStreamPos) ∧
      Chain b.endStreamPos right stop := by
  induction buffers generalizing start with
  | nil =>
    have : start = stop := h
    omega
  | cons a rest ih =>
    obtain ⟨ha, hend, hlen, hrest⟩ := h
    by_cases hp : p < a.endStreamPos
    · exact ⟨[], a, rest, rfl, by omega, hp, by simp, hrest⟩
    obtain ⟨left, b, right, rfl, hb, hpb, hleft, hright⟩ := ih hrest (by omega)
    have hab := (hrest.mem b (by simp)).1
    refine ⟨a :: left, b, right, rfl, hb, hpb, ?_, hright⟩
    intro c hc
    rcases mem_cons.mp hc with rfl | hc
    · exact ⟨by omega, hab⟩
    · exact hleft c hc

/-! ## The cursor -/

theorem cursorAt_append
    (h : ∀ b ∈ left, b.endStreamPos ≤ p) : cursorAt p (left ++ right) = cursorAt p right := by
  induction left with
  | nil => rfl
  | cons b _ ih =>
    have hb := h b (by simp)
    simp only [cons_append, cursorAt, if_neg (Nat.not_lt.mpr hb)]
    exact ih fun c hc => h c (by simp [hc])

/-- The cursor points to a buffer with a byte at or after `p`, or there is none. -/
theorem cursorAt_cases (p : Nat) (buffers : List SendQueueSendBuffer) :
    (cursorAt p buffers = .null ∧ ∀ b ∈ buffers, b.endStreamPos ≤ p) ∨
    ∃ b ∈ buffers, p < b.endStreamPos ∧ cursorAt p buffers = .buffer b.startStreamPos ∧
      ∀ more, cursorAt p (buffers ++ more) = .buffer b.startStreamPos := by
  induction buffers with
  | nil => exact .inl ⟨rfl, by simp⟩
  | cons a _ ih =>
    by_cases hp : p < a.endStreamPos
    · exact .inr ⟨a, by simp, hp, by simp [cursorAt, hp], by simp [cursorAt, hp]⟩
    rcases ih with ⟨hnull, hall⟩ | ⟨b, hb, hpb, hcur, hmore⟩
    · refine .inl ⟨by simpa [cursorAt, hp] using hnull, ?_⟩
      simpa using ⟨Nat.not_lt.mp hp, hall⟩
    · exact .inr ⟨b, by simp [hb], hpb, by simpa [cursorAt, hp] using hcur,
        fun more => by simpa [cursorAt, hp] using hmore more⟩

theorem cursorAt_ne_dangling (p : Nat) (buffers : List SendQueueSendBuffer) :
    cursorAt p buffers ≠ .dangling := by
  rcases cursorAt_cases p buffers with ⟨h, _⟩ | ⟨_, _, _, h, _⟩ <;> simp [h]

variable {b : SendQueueSendBuffer}

theorem nextBuffer_append (hleft : ∀ c ∈ left, c.startStreamPos ≠ b.startStreamPos)
    (hright : Chain b.endStreamPos right stop) :
    nextBuffer b.startStreamPos (left ++ b :: right) = cursorAt b.endStreamPos right := by
  induction left with
  | nil =>
    cases right with
    | nil => simp [nextBuffer, cursorAt]
    | cons next rest =>
      obtain ⟨hstart, hend, hlen, _⟩ := hright
      simp [nextBuffer, cursorAt, show b.endStreamPos < next.endStreamPos by omega]
  | cons a _ ih =>
    simp only [cons_append, nextBuffer, if_neg (hleft a (by simp))]
    exact ih fun c hc => hleft c (by simp [hc])

/-! ## The operations -/

theorem Chain.setOffset {target offset : Nat} (h : Chain start buffers stop) :
    Chain start (SendingBuffers.setOffset target offset buffers) stop := by
  induction buffers generalizing start with
  | nil => exact h
  | cons _ _ ih =>
    obtain ⟨hstart, hend, hlen, hrest⟩ := h
    simp only [SendingBuffers.setOffset, map_cons]
    split
    · exact ⟨hstart, hend, hlen, ih hrest⟩
    · exact ⟨hstart, hend, hlen, ih hrest⟩

theorem cursorAt_setOffset (p target offset : Nat) (buffers : List SendQueueSendBuffer) :
    cursorAt p (setOffset target offset buffers) = cursorAt p buffers := by
  induction buffers with
  | nil => rfl
  | cons _ _ ih =>
    simp only [setOffset, map_cons, cursorAt] at ih ⊢
    split <;> simp [ih]

theorem find?_start (hleft : ∀ c ∈ left, c.startStreamPos ≠ b.startStreamPos) :
    (left ++ b :: right).find? (fun c => c.startStreamPos = b.startStreamPos) = some b := by
  rw [List.find?_append, find?_eq_none.mpr (by simpa using hleft)]
  simp

theorem laid_empty (streamPos : Nat) : Laid { streamPos := streamPos } streamPos :=
  ⟨⟨streamPos, Nat.le_refl _, rfl⟩, by simp, rfl, rfl, rfl⟩

theorem Laid.addBuffer (h : Laid s p) {data : List UInt8}
    (hdata : data ≠ []) (userData : Nat) : Laid (s.addBuffer data userData) p := by
  obtain ⟨base, hbase, hchain⟩ := h.chain
  have hlen : 0 < data.length := length_pos_iff.mpr hdata
  have hunsend := h.unSend
  refine ⟨⟨base, hbase, hchain.append ⟨rfl, rfl, hlen, rfl⟩⟩, ?_, ?_, ?_, h.underflow⟩
  · intro b hb
    rcases mem_append.mp hb with hb | hb
    · exact h.offset b hb
    · obtain rfl := mem_singleton.mp hb
      simp only
      omega
  · simp only [SendingBuffers.addBuffer, h.curr]
    rcases cursorAt_cases p s.buffers with ⟨hnull, hall⟩ | ⟨b, _, _, hcur, hmore⟩
    · rw [hnull, if_pos rfl, cursorAt_append hall]
      simp [cursorAt, show p < s.streamPos + data.length by omega]
    · rw [hcur, hmore, if_neg (by simp)]
  · show p + (s.unSendLength + data.length) = s.streamPos + data.length
    omega

/-- Cutting a block off the buffer that holds `p` moves `p` to the end of the block. -/
theorem Laid.advance {len : Nat} (h : Laid s p) (hlen : 0 < len)
    (hbuffers : s.buffers = left ++ b :: right) (hb : b.startStreamPos ≤ p)
    (hpb : p < b.endStreamPos)
    (hleft : ∀ c ∈ left, c.startStreamPos < c.endStreamPos ∧ c.endStreamPos ≤ b.startStreamPos)
    (hright : Chain b.endStreamPos right s.streamPos) :
    Laid (s.advance b len) (cutBlock b len).endStreamPos := by
  obtain ⟨base, hbase, hchain⟩ := h.chain
  have hunsend := h.unSend
  have hstop := hright.le
  have hoffset : b.offsetStreamPos = p := by
    rw [h.offset b (by simp [hbuffers])]
    omega
  have hend : (cutBlock b len).endStreamPos = p + min (b.endStreamPos - p) len := by
    simp only [cutBlock, hoffset]
  have hblen : (cutBlock b len).len = min (b.endStreamPos - p) len := by
    simp only [SendQueueSendBlock.len, cutBlock, hoffset]
    omega
  have hbefore : ∀ c ∈ left, c.endStreamPos ≤ p := fun c hc => by
    have := hleft c hc
    omega
  refine ⟨⟨base, by omega, hchain.setOffset⟩, ?_, ?_, ?_, ?_⟩
  · intro c hc
    simp only [SendingBuffers.advance, setOffset, hbuffers, mem_map] at hc
    obtain ⟨c, hc, rfl⟩ := hc
    have hold := h.offset c (by rw [hbuffers]; exact hc)
    rcases mem_append.mp hc with hc | hc
    · have := hleft c hc
      rw [if_neg (by omega)]
      omega
    rcases mem_cons.mp hc with rfl | hc
    · simp only [if_true]
      omega
    · have := hright.mem c hc
      rw [if_neg (by omega)]
      omega
  · simp only [SendingBuffers.advance, cursorAt_setOffset]
    by_cases hall : b.endStreamPos - b.offsetStreamPos ≤ len
    · have hne : ∀ c ∈ left, c.startStreamPos ≠ b.startStreamPos := fun c hc => by
        have := hleft c hc
        omega
      rw [if_pos hall, hend, hbuffers, nextBuffer_append hne hright,
        show p + min (b.endStreamPos - p) len = b.endStreamPos by omega,
        cursorAt_append fun c hc => by have := hbefore c hc; omega]
      simp [cursorAt]
    rw [if_neg hall, h.curr, hend, hbuffers, cursorAt_append hbefore,
      cursorAt_append fun c hc => by have := hbefore c hc; omega]
    simp only [cursorAt]
    rw [if_pos hpb, if_pos (by omega)]
  · show (cutBlock b len).endStreamPos + (s.unSendLength - (cutBlock b len).len) = s.streamPos
    omega
  · simp only [SendingBuffers.advance, h.underflow, Bool.false_or, decide_eq_false_iff_not]
    omega

/-- With a dangling cursor nothing is cut, and nothing is said when bytes are unsent. -/
theorem generateBlock_dangling (len : Nat) (h : s.curr = .dangling) :
    s.generateBlock len = if s.unSendLength = 0 then some (none, s) else none := by
  simp [SendingBuffers.generateBlock, SendingBuffers.deref, h]

/-- What `SendQueueGenerateBlock` does to laid-out buffers: nothing when all bytes are cut,
otherwise it cuts a block that starts at `p`. -/
theorem Laid.generateBlock {len : Nat} (h : Laid s p) (hlen : 0 < len) :
    (s.unSendLength = 0 ∧ s.generateBlock len = some (none, s)) ∨
    ∃ b ∈ s.buffers, b.startStreamPos ≤ p ∧ p < b.endStreamPos ∧ b.offsetStreamPos = p ∧
      s.generateBlock len = some (some (cutBlock b len), s.advance b len) ∧
      Laid (s.advance b len) (cutBlock b len).endStreamPos := by
  by_cases hz : s.unSendLength = 0
  · exact .inl ⟨hz, by simp [SendingBuffers.generateBlock, hz]⟩
  right
  obtain ⟨base, hbase, hchain⟩ := h.chain
  have hunsend := h.unSend
  obtain ⟨left, b, right, hbuffers, hb, hpb, hleft, hright⟩ := hchain.find hbase (by omega)
  have hmem : b ∈ s.buffers := by simp [hbuffers]
  have hoffset : b.offsetStreamPos = p := by
    rw [h.offset b hmem]
    omega
  have hcurr : s.curr = .buffer b.startStreamPos := by
    rw [h.curr, hbuffers, cursorAt_append fun c hc => by have := hleft c hc; omega]
    simp [cursorAt, hpb]
  have hderef : s.deref = some b := by
    rw [deref, hcurr, hbuffers]
    exact find?_start fun c hc => by have := hleft c hc; omega
  refine ⟨b, hmem, hb, hpb, hoffset, ?_, h.advance hlen hbuffers hb hpb hleft hright⟩
  simp only [SendingBuffers.generateBlock, if_neg hz, hderef]
  rw [if_neg (by omega)]

/-- Popping takes buffers off the front, and `curr` dangles when its own buffer is one of them. -/
theorem popLoop_cases (ackStreamPos : Nat) (buffers : List SendQueueSendBuffer)
    (curr : SendCursor) :
    ∃ popped stay, (popLoop ackStreamPos buffers curr).1 = popped ∧
      (popLoop ackStreamPos buffers curr).2.1 = stay ∧ buffers = popped ++ stay ∧
      (∀ b ∈ popped, b.endStreamPos ≤ ackStreamPos) ∧
      (∀ b, stay.head? = some b → ackStreamPos < b.endStreamPos) ∧
      ((popLoop ackStreamPos buffers curr).2.2 = .dangling ∧
          (curr = .dangling ∨ ∃ b ∈ popped, curr = .buffer b.startStreamPos) ∨
        (popLoop ackStreamPos buffers curr).2.2 = curr ∧
          ∀ b ∈ popped, curr ≠ .buffer b.startStreamPos) := by
  induction buffers generalizing curr with
  | nil => exact ⟨[], [], rfl, rfl, rfl, by simp, by simp, .inr ⟨rfl, by simp⟩⟩
  | cons b rest ih =>
    by_cases hb : b.endStreamPos > ackStreamPos
    · refine ⟨[], b :: rest, ?_, ?_, rfl, by simp, ?_, .inr ⟨?_, by simp⟩⟩
      · simp [popLoop, hb]
      · simp [popLoop, hb]
      · rintro _ ⟨rfl⟩
        exact hb
      · simp [popLoop, hb]
    obtain ⟨popped, stay, h1, h2, rfl, hpopped, hstay, hcurr⟩ :=
      ih (if curr = .buffer b.startStreamPos then .dangling else curr)
    refine ⟨b :: popped, stay, ?_, ?_, rfl, ?_, hstay, ?_⟩
    · simp [popLoop, hb, h1]
    · simp [popLoop, hb, h2]
    · simpa using ⟨Nat.not_lt.mp hb, hpopped⟩
    simp only [popLoop, if_neg hb]
    by_cases hc : curr = .buffer b.startStreamPos
    · simp only [if_pos hc] at hcurr ⊢
      refine .inl ⟨?_, .inr ⟨b, by simp, hc⟩⟩
      exact hcurr.elim And.left And.left
    simp only [if_neg hc] at hcurr ⊢
    refine hcurr.imp (And.imp_right (Or.imp_right ?_)) (And.imp_right ?_)
    · rintro ⟨c, hmem, h⟩
      exact ⟨c, by simp [hmem], h⟩
    · simpa using fun hall => ⟨hc, hall⟩

/-- Buffers whose bytes are all cut may leave the front of the queue. -/
theorem Laid.drop (h : Laid s p)
    {popped stay : List SendQueueSendBuffer} (hbuffers : s.buffers = popped ++ stay)
    (hpopped : ∀ b ∈ popped, b.endStreamPos ≤ p) : Laid { s with buffers := stay } p := by
  obtain ⟨base, hbase, hchain⟩ := h.chain
  obtain ⟨middle, hfront, hback⟩ := (hbuffers ▸ hchain).split
  refine ⟨⟨middle, ?_, hback⟩, ?_, ?_, h.unSend, h.underflow⟩
  · -- the front part ends where its last buffer does
    have hlast : ∀ {start : Nat} {buffers : List SendQueueSendBuffer}, start ≤ p →
        Chain start buffers middle → (∀ b ∈ buffers, b.endStreamPos ≤ p) → middle ≤ p := by
      intro start buffers hstart hch hall
      induction buffers generalizing start with
      | nil => exact (show start = middle from hch) ▸ hstart
      | cons b _ ih =>
        exact ih (hall b (by simp)) hch.2.2.2 fun c hc => hall c (by simp [hc])
    exact hlast hbase hfront hpopped
  · exact fun b hb => h.offset b (by simp [hbuffers, hb])
  · rw [h.curr, hbuffers, cursorAt_append hpopped]

/-- After `SendQueuePopCompleteBuffers`, the buffers are laid out as before or `curr` dangles. It
only dangles when bytes that are not cut are acknowledged. -/
theorem Laid.pop (h : Laid s p) (ackStreamPos : Nat) :
    ∃ popped stay curr, popLoop ackStreamPos s.buffers s.curr = (popped, stay, curr) ∧
      s.buffers = popped ++ stay ∧ (∀ b ∈ popped, b.endStreamPos ≤ ackStreamPos) ∧
      (∀ b, stay.head? = some b → ackStreamPos < b.endStreamPos) ∧
      (curr = .dangling ∧ p < ackStreamPos ∨ Laid { s with buffers := stay, curr := curr } p) := by
  obtain ⟨popped, stay, h1, h2, hbuffers, hpopped, hstay, hcurr⟩ :=
    popLoop_cases ackStreamPos s.buffers s.curr
  obtain ⟨base, hbase, hchain⟩ := h.chain
  obtain ⟨middle, hfront, hback⟩ := (hbuffers ▸ hchain).split
  refine ⟨popped, stay, _, by rw [← h1, ← h2], hbuffers, hpopped, hstay, ?_⟩
  rcases cursorAt_cases p popped with ⟨_, hall⟩ | ⟨c, hc, hpc, _, hmore⟩
  · -- every popped buffer is cut to its end, so `curr` is not one of them
    have hcur : s.curr = cursorAt p stay := by rw [h.curr, hbuffers, cursorAt_append hall]
    have hstay : ∀ b ∈ popped, s.curr ≠ .buffer b.startStreamPos := by
      intro b hb heq
      have hbchain := hfront.mem b hb
      rcases cursorAt_cases p stay with ⟨hnull, _⟩ | ⟨d, hd, _, hbuf, _⟩
      · rw [hcur, hnull] at heq
        cases heq
      rw [hcur, hbuf] at heq
      have hstart : d.startStreamPos = b.startStreamPos := SendCursor.buffer.inj heq
      have hdchain := hback.mem d hd
      omega
    have hsame : (popLoop ackStreamPos s.buffers s.curr).2.2 = s.curr := by
      rcases hcurr with ⟨_, hdang | ⟨b, hb, heq⟩⟩ | ⟨hsame, _⟩
      · rw [hcur] at hdang
        exact absurd hdang (cursorAt_ne_dangling p stay)
      · exact absurd heq (hstay b hb)
      · exact hsame
    rw [hsame]
    exact .inr (h.drop hbuffers hall)
  -- the buffer that holds `p` is popped
  have hcur : s.curr = .buffer c.startStreamPos := by rw [h.curr, hbuffers, hmore]
  rcases hcurr with ⟨hdang, _⟩ | ⟨_, hne⟩
  · have := hpopped c hc
    exact .inl ⟨hdang, by omega⟩
  · exact absurd hcur (hne c hc)

end SendingBuffers

end Bdt
