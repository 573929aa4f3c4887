import Bdt.Connection.Invariant

/-!
# The send drive

When does `PackageConnectionSendDrive` end? It fills packages with a whole mtu while the window has
room for one; `SendQueue.waiting` are the lengths of the blocks it would send, in order, and
`fillWhileOpen` is how far it gets. What decides is the state of the window there. When it is closed,
or nothing is left, the drive ends. When it is partly open, no payload is filled, but a `FIN` or a
`FINACK` that is due goes into every package, and nothing makes the drive stop
(`PackageConnection.Spins`). `sendDrive_returns_iff` says that this is the only way not to end, beside
the undefined read through a pointer to a buffer that an ack for unsent bytes has removed
(`PackageConnection.ReadsStale`).
-/

namespace Bdt

open Base Relation List

/-! ## What waits to be sent -/

/-- The lengths of the blocks that `count` bytes are cut into. -/
def chunkLens (mtu count : Nat) : List Nat :=
  List.replicate (count / mtu) mtu ++ if count % mtu = 0 then [] else [count % mtu]

theorem chunkLens_zero (mtu : Nat) : chunkLens mtu 0 = [] := by
  simp [chunkLens]

/-- The first block takes a whole mtu, or all that is left. -/
theorem chunkLens_cut {mtu count : Nat} (hmtu : 0 < mtu) (hcount : 0 < count) :
    chunkLens mtu count = min count mtu :: chunkLens mtu (count - min count mtu) := by
  by_cases hlt : count < mtu
  · rw [Nat.min_eq_left (Nat.le_of_lt hlt), Nat.sub_self, chunkLens_zero, chunkLens,
      Nat.div_eq_of_lt hlt, Nat.mod_eq_of_lt hlt, if_neg (by omega)]
    rfl
  have hle : mtu ≤ count := Nat.not_lt.mp hlt
  have hdiv : count / mtu = (count - mtu) / mtu + 1 := by
    rw [Nat.div_eq_sub_div hmtu hle]
  have hmod : count % mtu = (count - mtu) % mtu := Nat.mod_eq_sub_mod hle
  rw [Nat.min_eq_right hle, chunkLens, chunkLens, hdiv, hmod, replicate_succ]
  rfl

namespace SendingBuffers

/-- The lengths of the blocks that the users' buffers are still to be cut into. -/
def chunks (mtu : Nat) (buffers : List SendQueueSendBuffer) : List Nat :=
  buffers.flatMap fun b => chunkLens mtu (b.endStreamPos - b.offsetStreamPos)

/-- Buffers whose bytes are all cut give no blocks. -/
theorem chunks_cut {mtu : Nat} {buffers : List SendQueueSendBuffer}
    (h : ∀ b ∈ buffers, b.endStreamPos ≤ b.offsetStreamPos) : chunks mtu buffers = [] := by
  refine flatMap_eq_nil_iff.mpr fun b hb => ?_
  rw [Nat.sub_eq_zero_of_le (h b hb), chunkLens_zero]

/-- Nothing is left to cut from laid-out buffers without unsent bytes. -/
theorem Laid.chunks_none {s : SendingBuffers} {p mtu : Nat} (h : Laid s p)
    (hz : s.unSendLength = 0) : chunks mtu s.buffers = [] := by
  obtain ⟨base, _, hchain⟩ := h.chain
  have hunsend := h.unSend
  refine chunks_cut fun b hb => ?_
  have hb' := hchain.mem b hb
  rw [h.offset b hb]
  omega

/-- Cutting a block takes the first of the lengths. -/
theorem Laid.chunks_advance {s : SendingBuffers} {p mtu : Nat} (h : Laid s p) (hmtu : 0 < mtu)
    {b : SendQueueSendBuffer} (hb : b ∈ s.buffers) (hstart : b.startStreamPos ≤ p)
    (hend : p < b.endStreamPos) :
    chunks mtu s.buffers = (cutBlock b mtu).len :: chunks mtu (s.advance b mtu).buffers := by
  obtain ⟨base, hbase, hchain⟩ := h.chain
  have hstop := (hchain.mem b hb).2.2.2
  obtain ⟨left, c, right, hbuffers, hc, hpc, hleft, hright⟩ := hchain.find hbase (by omega)
  -- the buffer that holds `p` is the only one that does
  obtain rfl : c = b := by
    rw [hbuffers] at hb
    rcases mem_append.mp hb with hb | hb
    · have := hleft b hb
      omega
    rcases mem_cons.mp hb with rfl | hb
    · rfl
    · have := hright.mem b hb
      omega
  have hoffset : c.offsetStreamPos = p := by
    rw [h.offset c (by simp [hbuffers])]
    omega
  have hcutLen : (cutBlock c mtu).len = min (c.endStreamPos - p) mtu := by
    simp only [SendQueueSendBlock.len, cutBlock, hoffset]
    omega
  have hcutEnd : (cutBlock c mtu).endStreamPos = p + min (c.endStreamPos - p) mtu := by
    simp only [cutBlock, hoffset]
  have hadvance : (s.advance c mtu).buffers =
      left ++ { c with offsetStreamPos := (cutBlock c mtu).endStreamPos } :: right := by
    have hsame : ∀ l : List SendQueueSendBuffer, (∀ d ∈ l, d.startStreamPos ≠ c.startStreamPos) →
        setOffset c.startStreamPos (cutBlock c mtu).endStreamPos l = l := by
      intro l hl
      refine (map_congr_left fun d hd => ?_).trans (List.map_id l)
      rw [if_neg (hl d hd), id]
    show setOffset c.startStreamPos _ s.buffers = _
    rw [hbuffers, setOffset, map_append, map_cons, if_pos rfl]
    refine congrArg₂ _ (hsame left fun d hd => ?_) (congrArg _ (hsame right fun d hd => ?_))
    · have := hleft d hd
      omega
    · have := hright.mem d hd
      omega
  have hbefore : ∀ d ∈ left, d.endStreamPos ≤ d.offsetStreamPos := fun d hd => by
    have := hleft d hd
    rw [h.offset d (by simp [hbuffers, hd])]
    omega
  have hfront : chunks mtu left = [] := chunks_cut hbefore
  unfold chunks at hfront ⊢
  rw [hadvance, hbuffers, flatMap_append, flatMap_append, hfront, flatMap_cons,
    flatMap_cons, nil_append, nil_append, hoffset,
    chunkLens_cut hmtu (by omega), hcutLen, hcutEnd]
  simp only [cons_append, List.cons.injEq, true_and]
  rw [Nat.sub_add_eq]

end SendingBuffers

namespace SendQueue

/-- The lengths of the blocks that the queue hands out next: the lost blocks, then the new ones.
`none` stands for a read through a dangling `curr`. -/
def waiting (queue : SendQueue) : List (Option Nat) :=
  queue.sendContext.lostBlocks.map (fun b => some b.len) ++
    if queue.sendingBuffers.curr = .dangling then
      if queue.getUnsendSize = 0 then [] else [none]
    else (SendingBuffers.chunks queue.mtu queue.sendingBuffers.buffers).map some

variable {queue : SendQueue}

/-- `SendQueueFillPayload` takes the first of the waiting blocks. -/
structure Takes (queue next : SendQueue) (len : Nat) (rest : List (Option Nat)) : Prop where
  pos : 0 < len
  waiting : next.waiting = rest
  pending : next.pending + len = queue.pending
  flight : queue.WindowOpen → next.getFilght = queue.getFilght + len
  /-- The send position only moves when no block is lost. -/
  streamPos : next.sendContext.streamPos = queue.sendContext.streamPos ∨
    queue.sendContext.lostBlocks = [] ∧ next.sendContext.lostBlocks = []

theorem Wf.takes_lost (h : queue.Wf) {block : SendQueueSendBlock}
    {lostRest : List SendQueueSendBlock} (hlost : queue.sendContext.lostBlocks = block :: lostRest)
    (now : Nat) :
    ∃ rest, queue.waiting = some block.len :: rest ∧
      Takes queue { queue with sendContext := queue.sendContext.resend block lostRest now }
        block.len rest := by
  have hproper : block.Proper := h.counted.parted.proper block (by simp [hlost])
  have hlen := h.counted.lost_eq
  have hsmall := h.counted.small
  rw [hlost, totalLen_cons] at hlen
  refine ⟨_, ?_, ?_, rfl, ?_, fun _ => ?_, .inl rfl⟩
  · unfold waiting
    rw [hlost]
    rfl
  · unfold SendQueueSendBlock.Proper at hproper
    unfold SendQueueSendBlock.len
    omega
  · show queue.getUnsendSize + (queue.sendContext.lost - block.len) + block.len =
      queue.getUnsendSize + queue.sendContext.lost
    omega
  · show word 32 (queue.sendContext.flight + block.len) = queue.sendContext.flight + block.len
    exact word_of_lt (by omega)

theorem Wf.takes_new (h : queue.Wf) (hlost : queue.sendContext.lostBlocks = [])
    (hlaid : queue.sendingBuffers.Laid queue.sendContext.streamPos) {b : SendQueueSendBuffer}
    (hb : b ∈ queue.sendingBuffers.buffers) (hstart : b.startStreamPos ≤ queue.sendContext.streamPos)
    (hend : queue.sendContext.streamPos < b.endStreamPos)
    (hoffset : b.offsetStreamPos = queue.sendContext.streamPos)
    (hlaid' : (queue.sendingBuffers.advance b queue.mtu).Laid
      (SendingBuffers.cutBlock b queue.mtu).endStreamPos) (now : Nat) :
    ∃ rest, queue.waiting = some (SendingBuffers.cutBlock b queue.mtu).len :: rest ∧
      Takes queue { queue with
        sendingBuffers := queue.sendingBuffers.advance b queue.mtu
        sendContext := queue.sendContext.sendNew (SendingBuffers.cutBlock b queue.mtu) now }
        (SendingBuffers.cutBlock b queue.mtu).len rest := by
  obtain ⟨hcut, hproper, hle, hcutEnd⟩ := h.cutBlock_range hend hoffset
  have hcurr : queue.sendingBuffers.curr ≠ .dangling := by
    rw [hlaid.curr]
    exact SendingBuffers.cursorAt_ne_dangling _ _
  have hcurr' : (queue.sendingBuffers.advance b queue.mtu).curr ≠ .dangling := by
    rw [hlaid'.curr]
    exact SendingBuffers.cursorAt_ne_dangling _ _
  have hunsend := hlaid.unSend
  have hunsend' := hlaid'.unSend
  rw [hcutEnd] at hunsend'
  have hstop : (queue.sendingBuffers.advance b queue.mtu).streamPos =
      queue.sendingBuffers.streamPos := rfl
  refine ⟨_, ?_, ?_, rfl, ?_, fun hopen => ?_, .inr ⟨hlost, hlost⟩⟩
  · unfold waiting
    rw [hlost, if_neg hcurr, hlaid.chunks_advance h.mtu_pos hb hstart hend, map_nil,
      nil_append, map_cons]
    congr 1
    show _ = queue.sendContext.lostBlocks.map _ ++ (if _ = SendCursor.dangling then _ else _)
    rw [hlost, if_neg hcurr']
    rfl
  · unfold SendQueueSendBlock.Proper at hproper
    omega
  · show (queue.sendingBuffers.advance b queue.mtu).unSendLength + queue.sendContext.lost +
      (SendingBuffers.cutBlock b queue.mtu).len =
        queue.sendingBuffers.unSendLength + queue.sendContext.lost
    omega
  · unfold WindowOpen getFilght at hopen
    show word 32 (queue.sendContext.flight + (SendingBuffers.cutBlock b queue.mtu).len) = _
    exact word_of_lt (by omega)

/-- What `SendQueueFillPayload` does, read off the waiting blocks. -/
theorem Wf.fillPayload_waiting (h : queue.Wf) (now : Nat) :
    (queue.waiting = [] ∧ queue.pending = 0 ∧
      queue.fillPayload now =
        some (false, { streamPos := queue.sendContext.streamPos, payload := none }, queue)) ∨
    (∃ rest, queue.waiting = none :: rest ∧ queue.pending ≠ 0 ∧ queue.fillPayload now = none) ∨
    ∃ len rest fill next, queue.waiting = some len :: rest ∧
      queue.fillPayload now = some (true, fill, next) ∧ Takes queue next len rest := by
  cases hlost : queue.sendContext.lostBlocks with
  | cons block =>
    obtain ⟨rest, hwaiting, htakes⟩ := h.takes_lost hlost now
    refine .inr (.inr ⟨block.len, rest,
      { streamPos := block.startStreamPos, payload := some block.data }, _, hwaiting, ?_, htakes⟩)
    simp only [SendQueue.fillPayload, hlost]
  | nil =>
    have hzero : queue.sendContext.lost = 0 := by rw [h.counted.lost_eq, hlost, totalLen_nil]
    have hpending : queue.pending = queue.getUnsendSize := by
      show _ + queue.sendContext.lost = _
      rw [hzero, Nat.add_zero]
    rcases h.layout with hdang | hlaid
    · have hwaiting : queue.waiting = if queue.getUnsendSize = 0 then [] else [none] := by
        unfold waiting
        rw [hlost, if_pos hdang, map_nil, nil_append]
      have hgen := SendingBuffers.generateBlock_dangling queue.mtu hdang
      by_cases hz : queue.getUnsendSize = 0
      · refine .inl ⟨by rw [hwaiting, if_pos hz], by rw [hpending, hz], ?_⟩
        unfold getUnsendSize at hz
        simp only [SendQueue.fillPayload, hlost, hgen, if_pos hz]
      · refine .inr (.inl ⟨[], by rw [hwaiting, if_neg hz], by rwa [hpending], ?_⟩)
        unfold getUnsendSize at hz
        simp only [SendQueue.fillPayload, hlost, hgen, if_neg hz]
    rcases hlaid.generateBlock h.mtu_pos with
      ⟨hz, hgen⟩ | ⟨b, hb, hstart, hend, hoffset, hgen, hlaid'⟩
    · have hcurr : queue.sendingBuffers.curr ≠ .dangling := by
        rw [hlaid.curr]
        exact SendingBuffers.cursorAt_ne_dangling _ _
      refine .inl ⟨?_, by rw [hpending]; exact hz, ?_⟩
      · unfold waiting
        rw [hlost, if_neg hcurr, hlaid.chunks_none hz]
        rfl
      · simp only [SendQueue.fillPayload, hlost, hgen]
    obtain ⟨rest, hwaiting, htakes⟩ := h.takes_new hlost hlaid hb hstart hend hoffset hlaid' now
    refine .inr (.inr ⟨_, rest,
      { streamPos := (SendingBuffers.cutBlock b queue.mtu).startStreamPos
        payload := some (SendingBuffers.cutBlock b queue.mtu).data },
      _, hwaiting, ?_, htakes⟩)
    simp only [SendQueue.fillPayload, hlost, hgen]

theorem Wf.waiting_nil (h : queue.Wf) : queue.waiting = [] ↔ queue.pending = 0 := by
  rcases h.fillPayload_waiting 0 with ⟨hw, hp, _⟩ | ⟨rest, hw, hp, _⟩ | ⟨len, rest, _, _, hw, _, ht⟩
  · simp [hw, hp]
  · simp [hw, hp]
  have hpos := ht.pos
  have hpending := ht.pending
  simp only [hw, reduceCtorEq, false_iff]
  omega

end SendQueue

namespace PackageConnection

/-! ## Where the drive gets to -/

/-- Send blocks while the window has room for a whole mtu: the bytes in flight then, and the blocks
that still wait. -/
def fillWhileOpen (wnd mtu : Nat) : Nat → List (Option Nat) → Nat × List (Option Nat)
  | flight, some len :: rest =>
    if flight + mtu ≤ wnd then fillWhileOpen wnd mtu (flight + len) rest
    else (flight, some len :: rest)
  | flight, rest => (flight, rest)

/-- The place where the drive stops filling payload. -/
def driveEnd (c : PackageConnection) : Nat × List (Option Nat) :=
  fillWhileOpen c.cc.wnd c.sendQueue.mtu c.sendQueue.getFilght c.sendQueue.waiting

/-- The window is partly open where the drive stops filling payload, something still waits, and a
`FIN` or a `FINACK` is due. -/
def Spins (c : PackageConnection) : Prop :=
  c.state ≠ .close ∧ c.driveEnd.2 ≠ [] ∧ c.driveEnd.1 < c.cc.wnd ∧
    c.cc.wnd < c.driveEnd.1 + c.sendQueue.mtu ∧
    (c.wantsFinAck = true ∨ c.wantsFin c.sendQueue.sendContext.streamPos = true)

/-- The window is open where the next block would be cut through a dangling pointer. A closed
connection only fills one package. -/
def ReadsStale (c : PackageConnection) : Prop :=
  if c.state = .close then
    c.sendQueue.getFilght + c.sendQueue.mtu ≤ c.cc.wnd ∧ c.sendQueue.waiting.head? = some none
  else c.driveEnd.1 + c.sendQueue.mtu ≤ c.cc.wnd ∧ c.driveEnd.2.head? = some none

instance (c : PackageConnection) : Decidable c.Spins := by
  unfold Spins
  infer_instance

instance (c : PackageConnection) : Decidable c.ReadsStale := by
  unfold ReadsStale
  infer_instance

/-- The send drive ends, with a defined result. -/
def DriveReturns (env : PackageEnv) (now : Nat) (c : PackageConnection) : Prop :=
  ∃ fuel d, c.sendDrive env fuel now = some d

/-- Every iteration that goes round sends waiting bytes or takes the pending ack. -/
def DriveProgresses (env : PackageEnv) (now : Nat) (c : PackageConnection) : Prop :=
  EveryIteration (driveBody env now) (fun s t =>
    t.sendQueue.pending < s.sendQueue.pending ∨ s.cc.newAck = true ∧ t.cc.newAck = false) c

variable {env : PackageEnv} {now : Nat} {c : PackageConnection}

theorem Wf.room_cases (h : c.Wf env) :
    (c.sendQueue.getFilght + c.sendQueue.mtu ≤ c.cc.wnd ∧ c.room = env.config.mtu) ∨
    (c.cc.wnd ≤ c.sendQueue.getFilght ∧ c.room = 0) ∨
    (c.sendQueue.getFilght < c.cc.wnd ∧ c.cc.wnd < c.sendQueue.getFilght + c.sendQueue.mtu ∧
      c.room ≠ env.config.mtu ∧ c.room ≠ 0) := by
  have hmtu := h.mtu
  have hcc := h.cc.mtu_eq
  unfold room LedbatCc.trySendPayload
  split <;> omega

theorem driveReturns_iff :
    DriveReturns env now c ↔
      Terminates (driveBody env now) (fun result => ∃ d, result = some d) c := by
  simp only [DriveReturns, Terminates, sendDrive, Option.join_eq_some_iff]
  constructor
  · rintro ⟨fuel, d, hd⟩
    exact ⟨fuel, some d, hd, d, rfl⟩
  · rintro ⟨fuel, _, hr, d, rfl⟩
    exact ⟨fuel, d, hr⟩

/-- A window without room for a whole mtu stops the filling at once. -/
theorem driveEnd_closed (h : ¬ c.sendQueue.getFilght + c.sendQueue.mtu ≤ c.cc.wnd) :
    c.driveEnd = (c.sendQueue.getFilght, c.sendQueue.waiting) := by
  unfold driveEnd
  cases c.sendQueue.waiting with
  | nil => rfl
  | cons w =>
    cases w with
    | none => rfl
    | some => rw [fillWhileOpen, if_neg h]

/-! ## One iteration -/

variable {fill : Fill}

variable {sent : Bool} {queue : SendQueue} {rest : List (Option Nat)}

theorem Filled.unique {sent' : Bool} {fill' : Fill} {queue' : SendQueue}
    (h : Filled env now c sent fill queue) (h' : Filled env now c sent' fill' queue') :
    sent = sent' ∧ fill = fill' ∧ queue = queue' := by
  rcases h with ⟨hroom, hfill⟩ | ⟨hroom, rfl, rfl, rfl⟩ <;>
    rcases h' with ⟨hroom', hfill'⟩ | ⟨hroom', rfl, rfl, rfl⟩
  · simpa using hfill.symm.trans hfill'
  · exact absurd hroom hroom'
  · exact absurd hroom' hroom
  · exact ⟨rfl, rfl, rfl⟩

/-- The state after an iteration that went round. -/
structure Round (c d : PackageConnection) (sent : Bool) (fill : Fill) (queue : SendQueue) :
    Prop where
  state : d.state = c.state
  queue : d.sendQueue = queue
  wnd : d.cc.wnd = c.cc.wnd
  newAck : d.cc.newAck = ((sent || c.wantsFin fill.endPos || c.wantsFinAck) && c.cc.newAck)
  finAck : d.wantsFinAck = c.wantsFinAck
  fin : ∀ endPos, d.wantsFin endPos = c.wantsFin endPos

/-- An iteration that finds nothing to send, or sends the last package, leaves. -/
theorem driveBody_leaves (hfill : Filled env now c sent fill queue)
    (h : c.sends sent fill = false ∨ c.state = .close ∨ c.room = 0 ∨ queue.pending = 0) :
    ∃ d, driveBody env now c = .leave (some d) := by
  rcases driveBody_cases env now c with
    ⟨hroom, hnone, _⟩ | ⟨_, _, _, hfill', hcase⟩
  · rcases hfill with ⟨_, hsome⟩ | ⟨hne, _⟩
    · cases hnone.symm.trans hsome
    · exact absurd hroom hne
  obtain ⟨rfl, rfl, rfl⟩ := hfill.unique hfill'
  rcases hcase with ⟨_, hstop⟩ | ⟨hsends, _, _, _, _, _, _, _, _, _, hbody⟩
  · exact ⟨_, hstop⟩
  by_cases hclose : c.state = .close
  · rw [if_pos hclose] at hbody
    exact ⟨_, hbody⟩
  · rw [if_neg hclose] at hbody
    rw [if_pos (by simpa [hsends, hclose] using h)] at hbody
    exact ⟨_, hbody⟩

theorem driveBody_round
    (hfill : Filled env now c sent fill queue) (hsends : c.sends sent fill = true)
    (hstate : c.state ≠ .close) (hroom : c.room ≠ 0) (hpending : queue.pending ≠ 0) :
    ∃ d, driveBody env now c = .again d ∧ Round c d sent fill queue := by
  rcases driveBody_cases env now c with ⟨hroom', hnone, _⟩ | ⟨_, _, _, hfill', hcase⟩
  · rcases hfill with ⟨_, hsome⟩ | ⟨hne, _⟩
    · cases hnone.symm.trans hsome
    · exact absurd hroom' hne
  obtain ⟨rfl, rfl, rfl⟩ := hfill.unique hfill'
  rcases hcase with ⟨hno, _⟩ | ⟨_, _, sub, _, _, cc, _, _, _, hprep, hbody⟩
  · cases hsends.symm.trans hno
  rw [if_neg hstate] at hbody
  rw [if_neg (by simp [hroom, hpending])] at hbody
  refine ⟨_, hbody, ⟨rfl, rfl, hprep.wnd, hprep.newAck, rfl, fun endPos => ?_⟩⟩
  have hsub : sub.sendsFin = c.closeSubState.sendsFin := by
    rcases hprep.sub with ⟨rfl, _⟩ | ⟨h, h'⟩
    · rfl
    · exact h'.trans h.symm
  simp only [wantsFin, hsub]

theorem Wf.filled_none (h : c.Wf env)
    (hclosed : ¬ c.sendQueue.getFilght + c.sendQueue.mtu ≤ c.cc.wnd) :
    Filled env now c false { streamPos := c.sendQueue.sendContext.streamPos, payload := none }
      c.sendQueue := by
  refine .inr ⟨?_, rfl, rfl, rfl⟩
  have hpos := env.config.mtu_pos
  rcases h.room_cases with ⟨hopen, _⟩ | ⟨_, hroom⟩ | ⟨_, _, hroom, _⟩
  · exact absurd hopen hclosed
  · omega
  · exact hroom

variable {d : PackageConnection} {next : SendQueue}

theorem Wf.round (h : c.Wf env) (hd : driveBody env now c = .again d) : d.Wf env := by
  have heffects : ReflTransGen (FreeEffect env) c d := driveBody_effects (.inl hd)
  exact h.effects heffects

/-- The states the drive spins in. -/
structure Spinning (env : PackageEnv) (c : PackageConnection) : Prop where
  wf : c.Wf env
  state : c.state ≠ .close
  pending : c.sendQueue.pending ≠ 0
  room : c.sendQueue.getFilght < c.cc.wnd
  closed : ¬ c.sendQueue.getFilght + c.sendQueue.mtu ≤ c.cc.wnd
  due : c.wantsFinAck = true ∨ c.wantsFin c.sendQueue.sendContext.streamPos = true

/-- An iteration from a spinning state changes nothing that matters. -/
theorem Spinning.again (h : Spinning env c) :
    ∃ d, driveBody env now c = .again d ∧ Spinning env d := by
  have hfill : Filled env now c false _ c.sendQueue := h.wf.filled_none h.closed
  have hroom : c.room ≠ 0 := by
    have hlt := h.room
    rcases h.wf.room_cases with ⟨hopen, _⟩ | ⟨hle, _⟩ | ⟨_, _, _, hroom⟩
    · exact absurd hopen h.closed
    · omega
    · exact hroom
  have hsends : c.sends false
      { streamPos := c.sendQueue.sendContext.streamPos, payload := none } = true := by
    rcases h.due with hdue | hdue
    · simp [sends, hdue]
    · simp [sends, Fill.endPos, hdue]
  obtain ⟨d, hd, hround⟩ := driveBody_round hfill hsends h.state hroom h.pending
  refine ⟨d, hd, ⟨h.wf.round hd, hround.state ▸ h.state, ?_, ?_, ?_, ?_⟩⟩
  · rw [hround.queue]
    exact h.pending
  · rw [hround.queue, hround.wnd]
    exact h.room
  · rw [hround.queue, hround.wnd]
    exact h.closed
  · rw [hround.queue, hround.finAck, hround.fin]
    exact h.due

/-- The drive from a window without room for a whole mtu. -/
theorem Wf.drive_closed (h : c.Wf env)
    (hclosed : ¬ c.sendQueue.getFilght + c.sendQueue.mtu ≤ c.cc.wnd) :
    DriveReturns env now c ∧ DriveProgresses env now c ↔ ¬ c.Spins ∧ ¬ c.ReadsStale := by
  have hfill : Filled env now c false _ c.sendQueue := h.filled_none hclosed
  have hend := driveEnd_closed hclosed
  have hstale : ¬ c.ReadsStale := by
    unfold ReadsStale
    rw [hend]
    split <;> exact fun hs => hclosed hs.1
  rw [and_iff_left hstale, driveReturns_iff]
  unfold DriveProgresses
  by_cases hleave : c.sends false { streamPos := c.sendQueue.sendContext.streamPos, payload := none } =
      false ∨ c.state = .close ∨ c.room = 0 ∨ c.sendQueue.pending = 0
  · obtain ⟨d, hd⟩ := driveBody_leaves hfill hleave
    rw [terminates_leave hd]
    refine iff_of_true ⟨⟨d, rfl⟩, everyIteration_leave hd⟩ ?_
    rintro ⟨hstate, hwaiting, hlt, hgt, hdue⟩
    rw [hend] at hwaiting hlt hgt
    rcases hleave with hsends | hclose | hroom | hpending
    · rcases hdue with hdue | hdue <;> simp [sends, Fill.endPos, hdue] at hsends
    · exact hstate hclose
    · rcases h.room_cases with ⟨hopen, _⟩ | ⟨hle, _⟩ | ⟨_, _, _, hne⟩
      · exact hclosed hopen
      · simp only at hlt
        omega
      · exact hne hroom
    · exact hwaiting (h.queue.waiting_nil.mpr hpending)
  simp only [not_or, Bool.not_eq_false] at hleave
  obtain ⟨hsends, hstate, hroom, hpending⟩ := hleave
  have hlt : c.sendQueue.getFilght < c.cc.wnd := by
    rcases h.room_cases with ⟨hopen, _⟩ | ⟨_, hz⟩ | ⟨hlt, _⟩
    · exact absurd hopen hclosed
    · exact absurd hz hroom
    · exact hlt
  by_cases hdue : c.wantsFinAck = true ∨ c.wantsFin c.sendQueue.sendContext.streamPos = true
  · have hspins : c.Spins := by
      refine ⟨hstate, ?_, ?_, ?_, hdue⟩ <;> rw [hend]
      · exact fun hnil => hpending (h.queue.waiting_nil.mp hnil)
      · exact hlt
      · exact Nat.not_le.mp hclosed
    refine iff_of_false (fun hreturns => ?_) (fun hno => hno hspins)
    exact not_terminates_of_invariant (Spinning env) (fun s hs => hs.again) c
      ⟨h, hstate, hpending, hlt, hclosed, hdue⟩ hreturns.1
  -- only the pending ack asks for a package, and the next iteration finds it taken
  have hnoSpin : ¬ c.Spins := fun hs => hdue hs.2.2.2.2
  simp only [not_or, Bool.not_eq_true] at hdue
  obtain ⟨hfinAck, hfin⟩ := hdue
  have hnew : c.cc.newAck = true := by simpa [sends, Fill.endPos, hfinAck, hfin] using hsends
  obtain ⟨d, hd, hround⟩ := driveBody_round hfill hsends hstate hroom hpending
  have hnew' : d.cc.newAck = false := by
    rw [hround.newAck]
    simp [Fill.endPos, hfinAck, hfin]
  have hclosed' : ¬ d.sendQueue.getFilght + d.sendQueue.mtu ≤ d.cc.wnd := by
    rw [hround.queue, hround.wnd]
    exact hclosed
  have hsends' : d.sends false
      { streamPos := d.sendQueue.sendContext.streamPos, payload := none } = false := by
    simp [sends, Fill.endPos, hround.finAck, hround.fin, hround.queue, hfinAck, hfin, hnew']
  obtain ⟨e, he⟩ := driveBody_leaves ((h.round hd).filled_none hclosed') (.inl hsends')
  rw [terminates_again hd, everyIteration_again hd, terminates_leave he]
  exact iff_of_true ⟨⟨e, rfl⟩, .inr ⟨hnew, hnew'⟩, everyIteration_leave he⟩ hnoSpin

theorem Wf.fin_not_due (h : c.Wf env) (hlost : c.sendQueue.sendContext.lostBlocks = [])
    (hpending : c.sendQueue.pending ≠ 0) :
    c.wantsFin c.sendQueue.sendContext.streamPos = false := by
  have hzero : c.sendQueue.sendContext.lost = 0 := by
    rw [h.queue.counted.lost_eq, hlost, totalLen_nil]
  have hunsend := h.queue.unSend
  have hclosing := h.closing
  unfold SendQueue.pending SendQueue.getUnsendSize SendQueue.getLostSize at hpending
  simp only [wantsFin, decide_eq_false_iff_not, not_and]
  intro hstate hle
  have := hclosing hstate
  omega

/-- Sending a block moves the drive on towards the same end. -/
theorem Wf.spins_round (h : c.Wf env) (hd : d.Wf env)
    {len : Nat} (hround : Round c d true fill next)
    (htakes : SendQueue.Takes c.sendQueue next len rest)
    (hwaiting : c.sendQueue.waiting = some len :: rest) (hrest : rest ≠ [])
    (hroom : c.room = env.config.mtu)
    (hopen : c.sendQueue.getFilght + c.sendQueue.mtu ≤ c.cc.wnd) (hstate : c.state ≠ .close) :
    (d.Spins ↔ c.Spins) ∧ (d.ReadsStale ↔ c.ReadsStale) := by
  have hmtu : d.sendQueue.mtu = c.sendQueue.mtu := hd.mtu.trans h.mtu.symm
  have hend : d.driveEnd = c.driveEnd := by
    unfold driveEnd
    rw [hwaiting, hmtu, hround.queue, hround.wnd, htakes.waiting, htakes.flight (h.windowOpen hroom),
      fillWhileOpen, if_pos hopen]
  have hdstate : d.state ≠ .close := hround.state ▸ hstate
  have hfin : d.wantsFin d.sendQueue.sendContext.streamPos =
      c.wantsFin c.sendQueue.sendContext.streamPos := by
    rcases htakes.streamPos with hpos | ⟨hlost, hlost'⟩
    · rw [hround.fin, hround.queue, hpos]
    -- a new block was cut, so that bytes are left on both sides of the iteration
    have hp : c.sendQueue.pending ≠ 0 := fun hz => by
      rw [h.queue.waiting_nil.mpr hz] at hwaiting
      cases hwaiting
    have hp' : d.sendQueue.pending ≠ 0 := fun hz => by
      have := hd.queue.waiting_nil.mpr hz
      rw [hround.queue, htakes.waiting] at this
      exact hrest this
    rw [h.fin_not_due hlost hp, hd.fin_not_due (hround.queue ▸ hlost') hp']
  constructor
  · unfold Spins
    rw [hend, hround.wnd, hmtu, hround.finAck, hfin, iff_true_intro hstate, iff_true_intro hdstate]
  · unfold ReadsStale
    rw [if_neg hstate, if_neg hdstate, hend, hround.wnd, hmtu]

/-- `driveEnd` and the head of the waiting blocks decide both conditions. -/
theorem no_trap (hend : c.driveEnd.2 = []) (hhead : c.sendQueue.waiting.head? ≠ some none) :
    ¬ c.Spins ∧ ¬ c.ReadsStale := by
  refine ⟨fun hs => hs.2.1 hend, ?_⟩
  unfold ReadsStale
  rw [hend]
  split
  · exact fun hs => hhead hs.2
  · simp

theorem drive_empty (hwaiting : c.sendQueue.waiting = []) (hpending : c.sendQueue.pending = 0)
    (hfill : Filled env now c false fill c.sendQueue) :
    DriveReturns env now c ∧ DriveProgresses env now c ↔ ¬ c.Spins ∧ ¬ c.ReadsStale := by
  obtain ⟨d, hd⟩ := driveBody_leaves hfill (.inr (.inr (.inr hpending)))
  rw [driveReturns_iff, DriveProgresses, terminates_leave hd]
  refine iff_of_true ⟨⟨d, rfl⟩, everyIteration_leave hd⟩ (no_trap ?_ (by simp [hwaiting]))
  unfold driveEnd
  rw [hwaiting]
  rfl

/-- The drive from an open window when the next block would be cut through the dangling pointer. -/
theorem drive_stale (hroom : c.room = env.config.mtu)
    (hopen : c.sendQueue.getFilght + c.sendQueue.mtu ≤ c.cc.wnd)
    (hwaiting : c.sendQueue.waiting = none :: rest) (hfill : c.sendQueue.fillPayload now = none) :
    DriveReturns env now c ∧ DriveProgresses env now c ↔ ¬ c.Spins ∧ ¬ c.ReadsStale := by
  have hbody : driveBody env now c = .leave none := by
    rcases driveBody_cases env now c with ⟨_, _, hbody⟩ | ⟨_, _, _, ⟨_, hfill'⟩ | ⟨hne, _⟩, _⟩
    · exact hbody
    · cases hfill.symm.trans hfill'
    · exact absurd hroom hne
  have hstale : c.ReadsStale := by
    unfold ReadsStale driveEnd
    rw [hwaiting]
    split <;> exact ⟨hopen, rfl⟩
  rw [driveReturns_iff, DriveProgresses, terminates_leave hbody]
  exact iff_of_false (fun hreturns => by simp at hreturns) (fun hno => hno.2 hstale)

/-- The drive from an open window when a block is sent. -/
theorem Wf.drive_takes (h : c.Wf env) {len : Nat} (hroom : c.room = env.config.mtu)
    (hopen : c.sendQueue.getFilght + c.sendQueue.mtu ≤ c.cc.wnd)
    (hwaiting : c.sendQueue.waiting = some len :: rest)
    (hfill : c.sendQueue.fillPayload now = some (true, fill, next))
    (htakes : SendQueue.Takes c.sendQueue next len rest)
    (ih : ∀ d : PackageConnection, d.Wf env → d.sendQueue.pending < c.sendQueue.pending →
      (DriveReturns env now d ∧ DriveProgresses env now d ↔ ¬ d.Spins ∧ ¬ d.ReadsStale)) :
    DriveReturns env now c ∧ DriveProgresses env now c ↔ ¬ c.Spins ∧ ¬ c.ReadsStale := by
  have hfilled : Filled env now c true fill next := .inl ⟨hroom, hfill⟩
  have hnext := (h.filled hfilled).1
  have hlen := htakes.pos
  have hless := htakes.pending
  by_cases hclose : c.state = .close
  · obtain ⟨d, hd⟩ := driveBody_leaves hfilled (.inr (.inl hclose))
    rw [driveReturns_iff, DriveProgresses, terminates_leave hd]
    refine iff_of_true ⟨⟨d, rfl⟩, everyIteration_leave hd⟩ ⟨fun hs => hs.1 hclose, ?_⟩
    unfold ReadsStale
    rw [if_pos hclose, hwaiting]
    simp
  by_cases hpending : next.pending = 0
  · obtain ⟨d, hd⟩ := driveBody_leaves hfilled (.inr (.inr (.inr hpending)))
    have hrest : rest = [] := htakes.waiting ▸ hnext.waiting_nil.mpr hpending
    rw [driveReturns_iff, DriveProgresses, terminates_leave hd]
    refine iff_of_true ⟨⟨d, rfl⟩, everyIteration_leave hd⟩ (no_trap ?_ (by simp [hwaiting]))
    unfold driveEnd
    rw [hwaiting, hrest, fillWhileOpen, if_pos hopen]
    rfl
  have hroom' : c.room ≠ 0 := hroom ▸ Nat.ne_of_gt env.config.mtu_pos
  obtain ⟨d, hd, hround⟩ := driveBody_round hfilled (by simp [sends]) hclose hroom' hpending
  have hdwf := h.round hd
  have hrest : rest ≠ [] := by
    rw [← htakes.waiting]
    exact fun hnil => hpending (hnext.waiting_nil.mp hnil)
  obtain ⟨hspins, hstale⟩ := h.spins_round hdwf hround htakes hwaiting hrest hroom hopen hclose
  have hprogress : d.sendQueue.pending < c.sendQueue.pending := by
    rw [hround.queue]
    omega
  have hrec := ih d hdwf hprogress
  rw [driveReturns_iff] at hrec ⊢
  unfold DriveProgresses at hrec ⊢
  rw [terminates_again hd, everyIteration_again hd, ← hspins, ← hstale, ← hrec]
  exact ⟨fun hall => ⟨hall.1, hall.2.2⟩, fun hall => ⟨hall.1, .inl hprogress, hall.2⟩⟩

/-- The drive from any window, by induction on the bytes that wait. -/
theorem Wf.drive_returns_iff (h : c.Wf env) :
    DriveReturns env now c ∧ DriveProgresses env now c ↔ ¬ c.Spins ∧ ¬ c.ReadsStale := by
  induction hn : c.sendQueue.pending using Nat.strongRecOn generalizing c with
  | ind n ih =>
    by_cases hopen : c.sendQueue.getFilght + c.sendQueue.mtu ≤ c.cc.wnd
    case neg => exact h.drive_closed hopen
    case pos =>
    have hroom : c.room = env.config.mtu := by
      have := h.queue.mtu_pos
      rcases h.room_cases with ⟨_, hroom⟩ | ⟨hle, _⟩ | ⟨_, hgt, _⟩
      · exact hroom
      · omega
      · omega
    rcases h.queue.fillPayload_waiting now with
      ⟨hwaiting, hpending, hfill⟩ | ⟨rest, hwaiting, _, hfill⟩ |
      ⟨len, rest, fill, next, hwaiting, hfill, htakes⟩
    · exact drive_empty hwaiting hpending (.inl ⟨hroom, hfill⟩)
    · exact drive_stale hroom hopen hwaiting hfill
    · exact h.drive_takes hroom hopen hwaiting hfill htakes
        fun d hd hlt => ih _ (hn ▸ hlt) hd rfl

/-! ## The drive of a reachable connection -/

/-- The send drive of a connection ends, and each of its iterations sends something or takes the
pending ack, unless it spins or reads a dangling pointer. `d` is any state that a reachable
connection goes through, between its handlers or inside one. -/
theorem sendDrive_returns_iff (env : PackageEnv) (now : Nat) {c d : PackageConnection}
    (hc : Reachable env c) (hd : ReflTransGen (FreeEffect env) c d) :
    DriveReturns env now d ∧ DriveProgresses env now d ↔ ¬ d.Spins ∧ ¬ d.ReadsStale :=
  (hc.wf.effects hd).drive_returns_iff

/-- A hundred bytes are sent and four acks mark them lost: the drive sends them again and ends. -/
theorem sendDrive_returns_lost : ∃ c : PackageConnection,
    c.state = .establish ∧ c.sendQueue.getLostSize = 100 ∧
      DriveReturns stackEnv 0 c ∧ DriveProgresses stackEnv 0 c := by
  obtain ⟨c, hrun, hc⟩ := exists_of_any
    (o := (create stackEnv).run stackEnv 5
      ((0, .send (List.replicate 100 0) 0) :: List.replicate 4 (0, .push { ackStreamPos := 1 })))
    (p := fun c => c.state = .establish ∧ c.sendQueue.getLostSize = 100 ∧ ¬ c.Spins ∧
      ¬ c.ReadsStale) (by decide +kernel)
  obtain ⟨hstate, hlost, hends⟩ := of_decide_eq_true hc
  exact ⟨c, hstate, hlost,
    (sendDrive_returns_iff stackEnv 0 (Reachable.run (.start rfl) hrun) .refl).mpr hends⟩

/-- Three buffers are sent, the connection is closed, and four acks for the first byte mark the first
block lost: 1408 bytes are in flight in a window of 2616. -/
def spinEvents : List (Nat × ConnectionEvent) :=
  [(0, .send (List.replicate 100 0) 0), (0, .send (List.replicate 100 0) 0),
    (0, .send (List.replicate 1308 0) 0), (0, .close)] ++
  List.replicate 4 (0, .push { ackStreamPos := 1 })

theorem spinEvents_run : ((create stackEnv).run stackEnv 20 spinEvents).any (fun c =>
    c.state = .closing ∧ c.sendQueue.pending ≠ 0 ∧ c.sendQueue.getFilght < c.cc.wnd ∧
      ¬ c.sendQueue.getFilght + c.sendQueue.mtu ≤ c.cc.wnd ∧
      c.wantsFin c.sendQueue.sendContext.streamPos = true) = true := by
  decide +kernel

/-- The drive of that connection goes round for ever. -/
theorem sendDrive_spins :
    ¬ ∀ (env : PackageEnv) (now : Nat) (c : PackageConnection), Reachable env c →
      DriveReturns env now c := by
  intro h
  obtain ⟨c, hrun, hc⟩ := exists_of_any spinEvents_run
  simp only [decide_eq_true_eq] at hc
  obtain ⟨hstate, hpending, hlt, hclosed, hfin⟩ := hc
  have hreach : Reachable stackEnv c := Reachable.run (.start rfl) hrun
  have hspin : Spinning stackEnv c :=
    ⟨hreach.wf, by simp [hstate], hpending, hlt, hclosed, .inr hfin⟩
  exact not_terminates_of_invariant (Spinning stackEnv) (fun s hs => hs.again) c hspin
    (driveReturns_iff.mp (h stackEnv 0 c hreach))

end PackageConnection

end Bdt
