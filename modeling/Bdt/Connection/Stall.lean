import Bdt.Connection.SendDrive

/-!
# Stalls

An established connection with lost or unsent bytes must have bytes in flight, or nothing will make it
send again: the retransmission timer only runs the send drive when it finds a block in flight timed
out. Every run of the send drive leaves bytes in flight. One event can move the last block in flight to
the lost list without running the drive: a package that acknowledges no byte but is the fourth ack of
that block, or a partial ack of it, and that brings nothing for the receive queue
(`PackageConnection.Stalls`). `no_stall` is about runs without such a package.
-/

namespace Bdt

open Base Relation Option

/-! ## Acks that only lose blocks -/

namespace SendContext

/-- The walk of `SendQueueConfirmRange` over the lost blocks gets to one that is acknowledged. -/
def sackReaches (ctx : SendContext) (sackArray : Option (List BdtStreamRange)) :
    List SendQueueSendBlock → Bool
  | [] => false
  | block :: rest =>
    match (ctx.checkBlock block sackArray).1 with
    | .ack => true
    | .outOfRange => false
    | _ => ctx.sackReaches sackArray rest

/-- The fourth ack marks one block, so that the blocks behind it are judged as before. -/
structure SameVerdict (before ctx : SendContext) (fs ls : List SendQueueSendBlock) : Prop where
  ackStreamPos : ctx.ackStreamPos = before.ackStreamPos
  dup : ctx.latestAckStreamPos = before.latestAckStreamPos ∧ ctx.dupAckTimes = before.dupAckTimes ∨
    ctx.dupAckTimes = 0 ∧ ∀ r ∈ fs ++ ls, r.startStreamPos ≠ before.latestAckStreamPos

theorem SameVerdict.check {before ctx : SendContext} {fs ls : List SendQueueSendBlock}
    (h : SameVerdict before ctx fs ls) {block : SendQueueSendBlock} (hblock : block ∈ fs ++ ls)
    (sackArray : Option (List BdtStreamRange)) :
    (ctx.checkBlock block sackArray).1 = (before.checkBlock block sackArray).1 := by
  unfold checkBlock
  rcases h.dup with ⟨hlatest, hdup⟩ | ⟨hzero, hne⟩
  · rw [hlatest, hdup, h.ackStreamPos]
    split <;> rfl
  · have hstart := hne block hblock
    rw [if_neg (by omega), if_neg (fun hd => hstart hd.1), h.ackStreamPos]

/-- What the walk keeps: as long as nothing is acknowledged and no block stays in flight, the blocks
already looked at were lost blocks or are lost now. -/
structure LosesAll (ctx now : SendContext) (sackArray : Option (List BdtStreamRange))
    (flight lost fs ls : List SendQueueSendBlock) (out : Nat) : Prop where
  verdict : SameVerdict ctx now fs ls
  rest : out = 0 → now.flightBlocks = [] →
    (∀ b ∈ fs, (ctx.checkBlock b sackArray).1 = .lost) ∧ ctx.sackReaches sackArray ls = false →
    (∀ b ∈ flight, (ctx.checkBlock b sackArray).1 = .lost) ∧ ctx.sackReaches sackArray lost = false

variable {ctx c next : SendContext} {sackArray : Option (List BdtStreamRange)}
  {fs ls flightRest lostRest : List SendQueueSendBlock} {block : SendQueueSendBlock}
  {bFlight : Bool} {state : SendBlockCheckState} {out : Nat}

/-- Looking at a block does not change the verdict on those behind it. -/
theorem SameVerdict.behind (h : SameVerdict ctx c fs ls)
    (ht : Taken fs ls block bFlight flightRest lostRest) (hproper : block.Proper)
    (hc : c.checkBlock block sackArray = (state, next)) :
    SameVerdict ctx next flightRest lostRest := by
  rcases checkBlock_cases hc with ⟨h4, hstart, _, rfl⟩ | ⟨_, _, rfl⟩
  · refine ⟨h.ackStreamPos, .inr ⟨rfl, fun r hr => ?_⟩⟩
    have hbefore := ht.before r hr
    have hlatest : c.latestAckStreamPos = ctx.latestAckStreamPos := by
      rcases h.dup with ⟨hlatest, _⟩ | ⟨hzero, _⟩
      · exact hlatest
      · omega
    unfold SendQueueSendBlock.Before SendQueueSendBlock.Proper at *
    omega
  · exact ⟨h.ackStreamPos, h.dup.imp_right fun hd =>
      ⟨hd.1, fun r hr => hd.2 r ((ht.mem_iff r).mpr (.inr hr))⟩⟩

/-- The three ways to deal with a block touch none of the fields that decide. -/
theorem SameVerdict.dealt (h : SameVerdict ctx next flightRest lostRest) (block : SendQueueSendBlock)
    (bFlight : Bool) :
    SameVerdict ctx (next.ackBlock block bFlight) flightRest lostRest ∧
    SameVerdict ctx (next.keepBlock block bFlight) flightRest lostRest ∧
    SameVerdict ctx (next.loseBlock block bFlight) flightRest lostRest := by
  cases bFlight <;> exact ⟨⟨h.ackStreamPos, h.dup⟩, ⟨h.ackStreamPos, h.dup⟩, h.ackStreamPos, h.dup⟩

/-- When an ack acknowledges nothing and leaves nothing in flight, it has marked every block that was
in flight lost, and its sack array reaches no lost block. -/
theorem confirm_loses (h : ctx.Counted) (ho : ctx.AckOrdered) (ackStreamPos : Nat)
    (sackArray : Option (List BdtStreamRange))
    (hnone : (ctx.confirm ackStreamPos sackArray).2 = 0)
    (hflight : (ctx.confirm ackStreamPos sackArray).1.flightBlocks = []) :
    (∀ b ∈ ctx.flightBlocks, ((ctx.acked ackStreamPos).checkBlock b sackArray).1 = .lost) ∧
      (ctx.acked ackStreamPos).sackReaches sackArray ctx.lostBlocks = false := by
  have hsmall : (ctx.acked ackStreamPos).flight + (ctx.acked ackStreamPos).lost < 2 ^ 32 := by
    obtain ⟨_, _, _, _, hf, hl, _⟩ := acked_fields ctx ackStreamPos
    rw [hf, hl]
    exact h.small
  have hstart : LosesAll (ctx.acked ackStreamPos)
      { ctx.acked ackStreamPos with flightBlocks := [], lostBlocks := [] } sackArray
      ctx.flightBlocks ctx.lostBlocks ctx.flightBlocks ctx.lostBlocks 0 :=
    ⟨⟨rfl, .inl ⟨rfl, rfl⟩⟩, fun _ _ hrest => hrest⟩
  rw [confirm_eq] at hnone hflight
  refine confirmLoop_rule
    (fun c fs ls out => Walk (ctx.acked ackStreamPos) c fs ls out ∧
      LosesAll (ctx.acked ackStreamPos) c sackArray ctx.flightBlocks ctx.lostBlocks fs ls out)
    (fun after out => out = 0 → after.flightBlocks = [] →
      (∀ b ∈ ctx.flightBlocks, ((ctx.acked ackStreamPos).checkBlock b sackArray).1 = .lost) ∧
        (ctx.acked ackStreamPos).sackReaches sackArray ctx.lostBlocks = false)
    ?_ ?_ rfl ⟨Walk.start h ho ackStreamPos, hstart⟩ hnone hflight
  · rintro c fs ls out block bFlight flightRest lostRest state next ⟨hw, hl⟩ hn hc
    have ht := nextBlock_taken hn hw.rest
    obtain ⟨hlists, _⟩ := nextBlock_cases hn hw.rest
    have hmem : block ∈ fs ++ ls := (ht.mem_iff block).mpr (.inl rfl)
    have hproper : block.Proper := hw.rest.proper block hmem
    have hnext := hw.check hc
    have habove := fun hs hd => hw.block_above hd hmem hc hs
    have hverdict : ((ctx.acked ackStreamPos).checkBlock block sackArray).1 = state := by
      rw [← hl.verdict.check hmem sackArray, hc]
    obtain ⟨hack, hkeep, hlose⟩ := (hl.verdict.behind ht hproper hc).dealt block bFlight
    have hkept : next.flightBlocks = c.flightBlocks := by
      rcases checkBlock_cases hc with ⟨_, _, _, rfl⟩ | ⟨_, _, rfl⟩ <;> rfl
    cases state with
    | outOfRange =>
      intro hout hempty
      obtain ⟨hflight, rfl⟩ := List.append_eq_nil_iff.mp hempty
      refine hl.rest hout (hkept ▸ hflight) ⟨by simp, ?_⟩
      rcases hlists with ⟨_, hfs, _⟩ | ⟨_, hls, _⟩
      · cases hfs
      · rw [hls, sackReaches, hverdict]
    | ack =>
      refine ⟨hnext.ack hsmall ht, hack, fun hzero => ?_⟩
      -- acknowledged bytes are counted, and the counter does not wrap
      have hbefore := hnext.total
      have hflen := ht.flight_len
      have hllen := ht.lost_len
      have hf := hnext.flight_eq
      have hlost := hnext.lost_eq
      have hword : word 32 (out + block.len) = out + block.len := by
        refine word_of_lt ?_
        cases bFlight <;> simp only [cond_true, cond_false] at hflen hllen <;> omega
      unfold SendQueueSendBlock.Proper at hproper
      unfold SendQueueSendBlock.len at hword hzero
      omega
    | prev =>
      refine ⟨hnext.keep ht (habove (by simp)), hkeep, fun hzero hempty hrest => ?_⟩
      rcases hlists with ⟨rfl, rfl, rfl⟩ | ⟨rfl, rfl, rfl⟩
      · simp [keepBlock] at hempty
      · refine hl.rest hzero (hkept ▸ hempty) ⟨hrest.1, ?_⟩
        rw [sackReaches, hverdict]
        exact hrest.2
    | lost =>
      refine ⟨hnext.lose hsmall ht (habove (by simp)), hlose, fun hzero hempty hrest => ?_⟩
      rcases hlists with ⟨rfl, rfl, rfl⟩ | ⟨rfl, rfl, rfl⟩
      · refine hl.rest hzero (hkept ▸ hempty) ⟨?_, hrest.2⟩
        intro b hb
        rcases List.mem_cons.mp hb with rfl | hb
        · exact hverdict
        · exact hrest.1 b hb
      · refine hl.rest hzero (hkept ▸ hempty) ⟨hrest.1, ?_⟩
        rw [sackReaches, hverdict]
        exact hrest.2
  · rintro c out ⟨_, hl⟩ hzero hempty
    exact hl.rest hzero (by simpa [putBack] using hempty) ⟨by simp, rfl⟩

end SendContext

/-! ## Packages that bring nothing -/

/-- The stream position behind all the users' buffers. -/
def RecvStream.bufferEnd (s : RecvStream) : Nat :=
  s.readStreamPos + (s.buffers.map RecvQueueRecvBuffer.len).sum

variable {streamPos : Nat} {data : List UInt8}

/-- The buffer that holds the position of a payload takes some of it. -/
theorem RecvStream.copyLoop_pos {bufferBeginPos : Nat} (endStreamPos : Nat)
    (hdata : data ≠ []) {buffer : RecvQueueRecvBuffer} (rest : List RecvQueueRecvBuffer)
    (hlt : streamPos < bufferBeginPos + buffer.len) (hle : bufferBeginPos ≤ streamPos) :
    0 < (copyLoop bufferBeginPos streamPos data endStreamPos (buffer :: rest)).1 := by
  have hlen : 0 < data.length := List.length_pos_iff.mpr hdata
  rw [copyLoop, if_neg hdata]
  show 0 < min data.length (buffer.len - (streamPos - bufferBeginPos)) + _
  omega

/-- A payload of which nothing is saved starts behind all the buffers. -/
theorem RecvStream.saveFrom_none {bufferBeginPos endStreamPos : Nat}
    {buffers : List RecvQueueRecvBuffer} (hdata : data ≠ []) (hle : bufferBeginPos ≤ streamPos)
    (h : (saveFrom bufferBeginPos streamPos data endStreamPos buffers).1 = 0) :
    bufferBeginPos + (buffers.map RecvQueueRecvBuffer.len).sum ≤ streamPos := by
  induction buffers generalizing bufferBeginPos with
  | nil => simpa using hle
  | cons buffer rest ih =>
    rw [saveFrom] at h
    split at h
    case isTrue hin =>
      have := copyLoop_pos endStreamPos hdata rest hin.2 hin.1
      omega
    case isFalse hout =>
    have hrest := ih (show bufferBeginPos + buffer.len ≤ streamPos by omega) h
    rw [List.map_cons, List.sum_cons]
    omega

theorem RecvStream.savePayload_none {s : RecvStream}
    (hdata : data ≠ []) (h : (s.savePayload streamPos data).1 = 0) : s.bufferEnd ≤ streamPos := by
  have hlen : 0 < data.length := List.length_pos_iff.mpr hdata
  unfold savePayload at h
  split at h
  · simp only at h
    split at h
    · simp only at h
      omega
    · simp only at h
      omega
  case isFalse hle => exact saveFrom_none hdata (Nat.not_lt.mp hle) h

theorem RecvQueue.writeData_type (queue : RecvQueue) (streamPos : Nat) {payload : List UInt8}
    (hpayload : payload ≠ []) :
    (queue.writeData streamPos payload).1 ≠ .none ∧
    ((queue.writeData streamPos payload).1 = .outOfBuffer →
      queue.recvBlock.ackStreamPos < streamPos + payload.length ∧
        queue.recvStream.bufferEnd ≤ streamPos) := by
  have hupdate : ∀ startStreamPos endStreamPos,
      (queue.recvBlock.updateStreamPos startStreamPos endStreamPos).1 ≠ .none ∧
      (queue.recvBlock.updateStreamPos startStreamPos endStreamPos).1 ≠ .outOfBuffer := by
    intro startStreamPos endStreamPos
    unfold RecvBlocks.updateStreamPos
    split
    · simp
    split
    · split
      · simp
      · split <;> simp
    · simp only
      split <;> simp
  unfold writeData
  split
  · simp
  case isFalse hnew =>
  simp only
  split
  case isTrue hzero =>
    exact ⟨by simp, fun _ => ⟨Nat.not_le.mp hnew, RecvStream.savePayload_none hpayload hzero⟩⟩
  case isFalse =>
  split
  · simp
  · exact ⟨(hupdate _ _).1, fun h => absurd h (hupdate _ _).2⟩

namespace PackageConnection

/-- A package brings neither a `FIN` nor bytes that the receive queue has or can save. -/
def BringsNothing (c : PackageConnection) (package : Bdt_SessionDataPackage) : Prop :=
  if package.payloadLength = 0 then package.hasFlag SessionDataFlag.FIN = false
  else
    c.recvQueue.recvBlock.ackStreamPos < package.streamPos + package.payloadLength ∧
      c.recvQueue.recvStream.bufferEnd ≤ package.streamPos

/-- A package whose ack marks everything in flight lost, acknowledges nothing, and brings nothing
that would run the send drive. -/
def Stalls (c : PackageConnection) : ConnectionEvent → Prop
  | .push package =>
    let ctx := c.sendQueue.sendContext
    let acked := ctx.acked package.ackStreamPos
    package.hasFlag SessionDataFlag.SYN = false ∧ c.state = .establish ∧
      c.BringsNothing package ∧
      ¬ (package.ackStreamPos < ctx.ackStreamPos ∧ ¬ hasSack package.sackArray) ∧
      ctx.flightBlocks ≠ [] ∧
      (∀ b ∈ ctx.flightBlocks, (acked.checkBlock b package.sackArray).1 = .lost) ∧
      acked.sackReaches package.sackArray ctx.lostBlocks = false
  | _ => False

/-- An established connection with something to send has bytes in flight. -/
def NoStall (c : PackageConnection) : Prop :=
  c.state = .establish → c.sendQueue.pending ≠ 0 → 0 < c.sendQueue.getFilght

variable {env : PackageEnv} {c d : PackageConnection}

theorem NoStall.congr (h : NoStall c) (hstate : d.state = c.state)
    (hpending : d.sendQueue.pending = c.sendQueue.pending)
    (hflight : d.sendQueue.getFilght = c.sendQueue.getFilght) : NoStall d := by
  intro hest hne
  rw [hflight]
  exact h (hstate ▸ hest) (hpending ▸ hne)

/-! ## The send drive -/

variable {now fuel : Nat} {package : Bdt_SessionDataPackage}

/-- An iteration of the send drive that leaves has something in flight or nothing to send. -/
theorem Wf.leave_noStall (h : c.Wf env)
    (hbody : driveBody env now c = .leave (some d)) : NoStall d := by
  have hpos := h.queue.mtu_pos
  have hmin : c.sendQueue.mtu ≤ c.cc.wnd := by
    have := h.cc.min_le
    have := h.mtu
    have := env.config.mtu_le
    omega
  rcases driveBody_cases env now c with
    ⟨_, _, hnone⟩ | ⟨sent, fill, queue, hfill, hcase⟩
  · cases hbody.symm.trans hnone
  have hqueue : queue.pending = 0 ∨ 0 < queue.getFilght ∨ sent = true ∧ c.room ≠ 0 := by
    rcases hfill with ⟨hroom, hfill⟩ | ⟨hroom, _, _, rfl⟩
    · rcases h.queue.fillPayload_cases hfill with
        ⟨_, _, _, hsent, _⟩ | ⟨_, hsent, _⟩ | ⟨hlost, hunsend, _, _, rfl⟩
      · exact .inr (.inr ⟨hsent, hroom ▸ Nat.ne_of_gt env.config.mtu_pos⟩)
      · exact .inr (.inr ⟨hsent, hroom ▸ Nat.ne_of_gt env.config.mtu_pos⟩)
      have hzero : c.sendQueue.sendContext.lost = 0 := by
        rw [h.queue.counted.lost_eq, hlost, totalLen_nil]
      exact .inl (by simp [SendQueue.pending, SendQueue.getUnsendSize, SendQueue.getLostSize,
        hunsend, hzero])
    right
    left
    rcases h.room_cases with ⟨_, hmtu⟩ | ⟨hle, _⟩ | ⟨_, hgt, _⟩
    · exact absurd hmtu hroom
    · omega
    · omega
  rcases hcase with ⟨hsends, hstop⟩ | ⟨_, package, _, _, _, _, _, _, _, _, hsend⟩
  · obtain rfl : d = { c with sendQueue := queue } := by simpa using hbody.symm.trans hstop
    intro _ hne
    rcases hqueue with hzero | hflight | ⟨hsent, _⟩
    · exact absurd hzero hne
    · exact hflight
    · simp [sends, hsent] at hsends
  rw [hbody] at hsend
  by_cases hclose : c.state = .close
  · rw [if_pos hclose] at hsend
    have hd := some.inj (Flow.leave.inj hsend)
    rw [hd]
    exact fun hest => absurd (hclose.symm.trans hest) (by simp)
  rw [if_neg hclose] at hsend
  split at hsend
  case isFalse => cases hsend
  case isTrue hlast =>
  have hd := some.inj (Flow.leave.inj hsend)
  rw [hd]
  intro _ hne
  rcases hqueue with hzero | hflight | ⟨_, hroom⟩
  · exact absurd hzero hne
  · exact hflight
  · exact absurd (hlast.resolve_left hroom) hne

/-- Every run of the send drive leaves something in flight or nothing to send. -/
theorem Wf.sendDrive_noStall (h : c.Wf env)
    (hd : c.sendDrive env fuel now = some d) : NoStall d := by
  unfold sendDrive at hd
  obtain ⟨r, hr, rfl⟩ : ∃ r, runLoop (driveBody env now) fuel c = some r ∧ r = some d := by
    simpa [join_eq_some_iff] using hd
  exact runLoop_result (Wf env) (fun r => ∀ e, r = some e → NoStall e)
    (fun s t hs ht => hs.round ht) (fun s r hs hl e he => hs.leave_noStall (he ▸ hl)) h hr d rfl

/-! ## The handlers -/

/-- A connection that has begun to close is never established again. -/
theorem Effect.state {limits : Limits} (h : Effect env limits c d) (hd : d.state = .establish) :
    c.state = .establish := by
  cases h with
  | note | subState | fill | transmit | accept | receive | confirm | complete | timeout => exact hd
  | beginClose => cases hd
  | reset hstate => exact hstate
  | closed =>
    unfold maybeCloseFinish at hd
    split at hd
    · cases hd
    · exact hd
  | write =>
    unfold writePackage at hd
    split at hd <;> split at hd <;> exact hd
  | deliver =>
    unfold PackageConnection.deliver notifyRecvReadyBuffers at hd
    simp only at hd
    split at hd
    · exact hd
    · split at hd <;> exact hd
  | addRecv =>
    unfold PackageConnection.recv at hd
    split at hd <;> exact hd

theorem noStall_of_effects {limits : Limits} (h : ReflTransGen (Effect env limits) c d)
    (hc : c.state ≠ .establish) : NoStall d := by
  have hd : d.state ≠ .establish :=
    reflTransGen_preserves (fun e => e.state ≠ .establish)
      (fun _ _ hs ht he => hs (Effect.state ht he)) h hc
  exact fun hest => absurd hest hd

theorem deliver_fields (force : Bool) (c : PackageConnection) :
    (c.deliver force).state = c.state ∧ (c.deliver force).sendQueue = c.sendQueue := by
  unfold deliver notifyRecvReadyBuffers
  simp only
  split
  · exact ⟨rfl, rfl⟩
  · split <;> exact ⟨rfl, rfl⟩

theorem writePackage_quiet
    (h : (c.writePackage package).1 = .none ∨ (c.writePackage package).1 = .outOfBuffer) :
    c.BringsNothing package := by
  have hwrite : package.payloadLength ≠ 0 →
      (c.writePackage package).1 =
        (c.recvQueue.writeData package.streamPos package.payloadBytes).1 := by
    intro hlen
    unfold writePackage
    split <;> rfl
  unfold BringsNothing
  by_cases hlen : package.payloadLength = 0
  · rw [if_pos hlen]
    unfold writePackage at h
    by_cases hfin : package.hasFlag SessionDataFlag.FIN = true
    · simp [hfin, hlen] at h
    · simpa using hfin
  rw [if_neg hlen]
  have hpayload : package.payloadBytes ≠ [] := fun hnil => hlen (by
    unfold Bdt_SessionDataPackage.payloadLength
    rw [hnil]
    rfl)
  obtain ⟨hnone, hout⟩ := c.recvQueue.writeData_type package.streamPos hpayload
  rw [hwrite hlen] at h
  exact hout (h.resolve_left hnone)

/-- After the payload of a package is dealt with: the send drive has run, or the package brought
nothing. -/
theorem Wf.pushData_noStall (h : c.Wf env) (hpush : c.pushData env fuel now package = some d) :
    NoStall d ∨ c.BringsNothing package ∧ d.state = c.state ∧ d.sendQueue = c.sendQueue := by
  have hfields : (c.writePackage package).2.state = c.state ∧
      (c.writePackage package).2.sendQueue = c.sendQueue ∧
      (c.writePackage package).2.cc = c.cc ∧
      (c.writePackage package).2.selfCloseStreamPos = c.selfCloseStreamPos := by
    unfold writePackage
    split <;> split <;> exact ⟨rfl, rfl, rfl, rfl⟩
  obtain ⟨hstate, hqueue, hcc, hself⟩ := hfields
  unfold pushData at hpush
  simp only at hpush
  split at hpush
  case isTrue hnone =>
    cases hpush
    exact .inr ⟨writePackage_quiet (.inl hnone), hstate, hqueue⟩
  case isFalse hkind =>
  obtain ⟨e, he, hpush⟩ := bind_eq_some_iff.mp hpush
  -- what follows the send drive leaves the send queue alone
  have hrest : d.state = e.state ∧ d.sendQueue = e.sendQueue := by
    split at hpush
    · cases hpush
      exact deliver_fields _ _
    · cases hpush
      exact ⟨rfl, rfl⟩
  split at he
  case isTrue =>
    left
    have hwf : Wf env { (c.writePackage package).2 with
        cc := ((c.writePackage package).2.cc.onData (some package) (c.writePackage package).1).2 } :=
      ⟨by simpa only [hqueue] using h.queue, by simpa only [hqueue] using h.mtu,
        onData_wf _ _ _ _ (hcc ▸ h.cc), by simpa only [hstate, hself, hqueue] using h.closing⟩
    exact (hwf.sendDrive_noStall he).congr hrest.1 (by rw [hrest.2]) (by rw [hrest.2])
  case isFalse hdue =>
  right
  cases he
  refine ⟨writePackage_quiet (.inr ?_), hrest.1.trans hstate, hrest.2.trans hqueue⟩
  by_contra hout
  refine hdue ?_
  unfold LedbatCc.onData
  rw [if_pos ⟨hkind, hout⟩]

/-- After the ack of a package is dealt with: the send drive has run, or nothing was acknowledged. -/
theorem Wf.pushAck_noStall (h : c.Wf env) (hpush : c.pushAck env fuel now package = some d) :
    NoStall d ∨ (c.sendQueue.confirmRange package.ackStreamPos package.sackArray).2 = 0 ∧
      d = { c with
        sendQueue := (c.sendQueue.confirmRange package.ackStreamPos package.sackArray).1 } := by
  unfold pushAck at hpush
  simp only at hpush
  split at hpush
  case isTrue hzero => exact .inr ⟨hzero, (some.inj hpush).symm⟩
  case isFalse =>
  left
  obtain ⟨cc, hcc, hpush⟩ := bind_eq_some_iff.mp hpush
  obtain ⟨e, he, hpush⟩ := bind_eq_some_iff.mp hpush
  have hconfirm : Wf env { c with
      sendQueue := (c.sendQueue.confirmRange package.ackStreamPos package.sackArray).1 } :=
    h.confirm package.ackStreamPos package.sackArray
  have hwf : Wf env { c with
      sendQueue := (c.sendQueue.confirmRange package.ackStreamPos package.sackArray).1
      cc := cc } :=
    ⟨hconfirm.queue, hconfirm.mtu, (h.cc.onAck hcc).1, hconfirm.closing⟩
  cases hpush
  exact (hwf.sendDrive_noStall he).congr rfl rfl rfl

/-- The close sub-states change nothing else, unless the `FIN` begins to close the connection. -/
theorem updateCloseSubStateOnRecv_frame {cmdflags : CmdFlags}
    (h : c.updateCloseSubStateOnRecv env fuel now cmdflags = some d) :
    d.state ≠ .establish ∨ d.state = c.state ∧ d.sendQueue = c.sendQueue ∧
      d.recvQueue = c.recvQueue := by
  obtain ⟨e, he, hd⟩ := bind_eq_some_iff.mp h
  have hclose : ∀ {b : PackageConnection}, b.close env fuel now = some e →
      e.state ≠ .establish ∨ e = b := by
    intro b hb
    unfold PackageConnection.close at hb
    split at hb
    case isTrue hstate =>
      left
      intro hest
      simp only at hb
      split at hb
      · have heffects : ReflTransGen (FreeEffect env) _ e := sendDrive_effects hb
        refine reflTransGen_preserves (fun s => s.state ≠ .establish)
          (fun _ _ hs ht hs' => hs (Effect.state ht hs')) heffects ?_ hest
        simp
      · cases some.inj hb
        cases hest
    case isFalse => exact .inr (some.inj hb).symm
  have hfin : e.state ≠ .establish ∨ e.state = c.state ∧ e.sendQueue = c.sendQueue ∧
      e.recvQueue = c.recvQueue := by
    split at he
    case isFalse => exact .inr (by cases he; exact ⟨rfl, rfl, rfl⟩)
    case isTrue =>
    unfold onRecvFin at he
    split at he
    · simp only at he
      split at he
      · exact .inr (by cases he; exact ⟨rfl, rfl, rfl⟩)
      · rcases hclose he with hclosing | rfl
        · exact .inl hclosing
        · exact .inr ⟨rfl, rfl, rfl⟩
    all_goals exact .inr (by cases he; exact ⟨rfl, rfl, rfl⟩)
  cases hd
  split
  case isFalse => exact hfin
  case isTrue =>
  unfold onRecvFinAck
  split
  · exact hfin
  · exact hfin
  · unfold maybeCloseFinish
    split
    · exact .inl (by simp)
    · exact hfin
  · exact hfin

/-- An ack that acknowledges nothing and leaves bytes to send but none in flight is one of a package
that stalls. -/
theorem Wf.stalls_of_confirm (h : c.Wf env) (hc : NoStall c)
    (hsyn : package.hasFlag SessionDataFlag.SYN = false) (hest : c.state = .establish)
    (hbrings : c.BringsNothing package)
    (hzero : (c.sendQueue.confirmRange package.ackStreamPos package.sackArray).2 = 0)
    (hpending : (c.sendQueue.confirmRange package.ackStreamPos package.sackArray).1.pending ≠ 0)
    (hflight : (c.sendQueue.confirmRange package.ackStreamPos package.sackArray).1.getFilght = 0) :
    c.Stalls (.push package) := by
  unfold SendQueue.confirmRange at hzero hpending hflight
  split at hzero
  case isTrue hearly =>
    rw [if_pos hearly] at hpending hflight
    exact absurd hflight (Nat.ne_of_gt (hc hest hpending))
  case isFalse hlate =>
  rw [if_neg hlate] at hpending hflight
  obtain ⟨hconf, _, _⟩ :=
    h.queue.counted.confirm h.queue.ordered package.ackStreamPos package.sackArray
  have htotal := hconf.total
  have hflightEq := hconf.counted.flight_eq
  simp only [SendQueue.pending, SendQueue.getUnsendSize, SendQueue.getLostSize,
    SendQueue.getFilght] at hzero hpending hflight
  have hempty : (c.sendQueue.sendContext.confirm package.ackStreamPos
      package.sackArray).1.flightBlocks = [] := by
    by_contra hne
    have := SendContext.totalLen_pos
      (fun b hb => hconf.counted.parted.proper b (List.mem_append.mpr (.inl hb))) hne
    omega
  obtain ⟨hlose, hreach⟩ := SendContext.confirm_loses h.queue.counted h.queue.ordered
    package.ackStreamPos package.sackArray hzero hempty
  refine ⟨hsyn, hest, hbrings, hlate, fun hnone => ?_, hlose, hreach⟩
  -- nothing was in flight before either, so that nothing was to be sent
  have hflight0 : c.sendQueue.sendContext.flight = 0 := by
    rw [h.queue.counted.flight_eq, hnone, totalLen_nil]
  have hpos := hc hest
  simp only [SendQueue.pending, SendQueue.getUnsendSize, SendQueue.getLostSize,
    SendQueue.getFilght] at hpos
  omega

theorem Wf.pushPackage_noStall (h : c.Wf env) (hc : NoStall c)
    (hpush : c.pushPackage env fuel now package = some d)
    (hstalls : ¬ c.Stalls (.push package)) : NoStall d := by
  unfold pushPackage at hpush
  split at hpush
  case isTrue =>
    split at hpush
    · have hwf : Wf env { c with cc := (c.cc.onData none .inOrder).2 } :=
        ⟨h.queue, h.mtu, onData_wf _ _ _ _ h.cc, h.closing⟩
      exact hwf.sendDrive_noStall hpush
    · exact some.inj hpush ▸ hc
  case isFalse hsyn =>
  rw [Bool.not_eq_true] at hsyn
  obtain ⟨e, he, hpush⟩ := bind_eq_some_iff.mp hpush
  obtain ⟨f, hf, hpush⟩ := bind_eq_some_iff.mp hpush
  have hbegin : Wf env (c.beginPush now package) := ⟨h.queue, h.mtu, h.cc, h.closing⟩
  have hsub : ReflTransGen (FreeEffect env) (c.beginPush now package) e :=
    updateCloseSubStateOnRecv_effects he fun _ _ _ _ => trivial
  have hrec : .receive package ∈ e.history :=
    (effects_history hsub).subset (by simp [beginPush, estimateRtt])
  have hack : ReflTransGen (FreeEffect env) e f := pushAck_effects hrec hf
  have hdata : ReflTransGen (FreeEffect env) f d :=
    pushData_effects ((effects_history hack).subset hrec) hpush
  have hewf : e.Wf env := hbegin.effects hsub
  have hfwf : f.Wf env := hewf.effects hack
  rcases updateCloseSubStateOnRecv_frame he with hclosing | ⟨hstate, hqueue, hrecv⟩
  · -- the connection is closing, and stays so
    exact noStall_of_effects (hack.trans hdata) hclosing
  have hestate : e.state = c.state := hstate
  have hequeue : e.sendQueue = c.sendQueue := hqueue
  have herecv : e.recvQueue = c.recvQueue := hrecv
  rcases hfwf.pushData_noStall hpush with hnoStall | ⟨hquiet, hdstate, hdqueue⟩
  · exact hnoStall
  refine NoStall.congr (c := f) ?_ hdstate (by rw [hdqueue]) (by rw [hdqueue])
  rcases hewf.pushAck_noStall hf with hnoStall | ⟨hzero, rfl⟩
  · exact hnoStall
  rw [hequeue] at hzero ⊢
  intro hest hpending
  have hbrings : c.BringsNothing package := by
    unfold BringsNothing at hquiet ⊢
    simpa only [herecv] using hquiet
  by_contra hflight
  exact hstalls (h.stalls_of_confirm hc hsyn (hestate ▸ hest) hbrings hzero hpending
    (Nat.eq_zero_of_not_pos hflight))

theorem Wf.rtoTimerCallback_noStall (h : c.Wf env) (hc : NoStall c)
    (hd : c.rtoTimerCallback env fuel now = some d) : NoStall d := by
  unfold rtoTimerCallback at hd
  split at hd
  · exact some.inj hd ▸ hc.congr rfl rfl rfl
  split at hd
  · simp only at hd
    split at hd
    · obtain ⟨e, he, hd⟩ := bind_eq_some_iff.mp hd
      have hwf : Wf env { c with
          sendQueue := (c.sendQueue.markRangeTimeout false c.rto now).1 } :=
        ⟨h.queue.markRangeTimeout _ _ _, h.mtu, h.cc, h.closing⟩
      have hdrive : NoStall e := hwf.sendDrive_noStall he
      split at hd <;> exact some.inj hd ▸ hdrive.congr rfl rfl rfl
    case isFalse hcount =>
    obtain ⟨_, _, hflight, hlost⟩ := h.queue.counted.markRangeTimeout false c.rto now
    have hzero : (c.sendQueue.sendContext.markRangeTimeout false c.rto now).2 = 0 :=
      Nat.eq_zero_of_not_pos hcount
    rw [hzero] at hflight hlost
    refine some.inj hd ▸ hc.congr rfl ?_ hflight
    exact congrArg (c.sendQueue.getUnsendSize + ·) hlost
  · exact some.inj hd ▸ hc.congr rfl rfl rfl

theorem NoStall.step (hc : NoStall c) (h : c.Wf env) {event : ConnectionEvent}
    (hstep : Step env c event d) (hstalls : ¬ c.Stalls event) : NoStall d := by
  obtain ⟨fuel, now, hstep⟩ := hstep
  have hclosed : ∀ b : PackageConnection, b.state = c.state → b.sendQueue = c.sendQueue →
      NoStall b.maybeCloseFinish := by
    intro b hstate hqueue
    unfold maybeCloseFinish
    split
    · exact fun hest => by cases hest
    · exact hc.congr hstate (by rw [hqueue]) (by rw [hqueue])
  cases event with
  | send data userData =>
    simp only [handle, send] at hstep
    split at hstep
    case isTrue hstate =>
      split at hstep
      · exact some.inj hstep ▸ hc
      case h_2 queue hadd =>
        split at hstep
        case isTrue hwaiting =>
          -- bytes were waiting before the call, so that some are in flight
          have hwaiting : 0 < c.sendQueue.sendingBuffers.unSendLength := of_decide_eq_true hwaiting
          have hflight := hc hstate (Nat.ne_of_gt (Nat.add_pos_left hwaiting _))
          unfold SendQueue.addBuffer at hadd
          split at hadd
          · cases hadd
          · cases hadd
            exact some.inj hstep ▸ fun _ _ => hflight
        case isFalse =>
          have haccept : FreeEffect env c _ := .accept c data userData queue hstate hadd
          exact (h.effect haccept).sendDrive_noStall hstep
    case isFalse => exact some.inj hstep ▸ hc
  | recv =>
    cases hstep
    unfold PackageConnection.recv
    split
    · exact hc
    · exact hc.congr rfl rfl rfl
  | close =>
    simp only [handle, close] at hstep
    split at hstep
    case isTrue hstate =>
      have hbegin : FreeEffect env c _ := .beginClose c hstate
      split at hstep
      · exact (h.effect hbegin).sendDrive_noStall hstep
      · exact some.inj hstep ▸ fun hest => by cases hest
    case isFalse => exact some.inj hstep ▸ hc
  | reset =>
    cases hstep
    unfold PackageConnection.reset maybeCloseFinish
    split
    · rw [if_pos (by simp)]
      exact fun hest => by cases hest
    · exact hc
  | push => exact h.pushPackage_noStall hc hstep hstalls
  | rtoTimer =>
    simp only [handle] at hstep
    split at hstep
    · exact h.rtoTimerCallback_noStall hc hstep
    · cases hstep
  | recvTimer =>
    simp only [handle] at hstep
    split at hstep
    · cases hstep
      unfold recvTimerCallback
      simp only
      split
      · exact hc.congr rfl rfl rfl
      · obtain ⟨hstate, hqueue⟩ := deliver_fields true { c with recvTimer := false }
        exact hc.congr hstate (by rw [hqueue]) (by rw [hqueue])
    · cases hstep
  | finTimer =>
    simp only [handle] at hstep
    split at hstep
    · unfold finTimerCallback at hstep
      simp only at hstep
      split at hstep
      · exact some.inj hstep ▸ hc.congr rfl rfl rfl
      obtain ⟨e, he, hstep⟩ := bind_eq_some_iff.mp hstep
      have hwf : Wf env { c with closeTimer := .idle } := ⟨h.queue, h.mtu, h.cc, h.closing⟩
      have hdrive : NoStall e := hwf.sendDrive_noStall he
      exact some.inj hstep ▸ hdrive.congr rfl rfl rfl
    · cases hstep
  | timewaitTimer =>
    simp only [handle] at hstep
    split at hstep
    · cases hstep
      exact hclosed _ rfl rfl
    · cases hstep

/-! ## Runs -/

/-- In a run without a package that stalls, no established connection has bytes to send and none in
flight. -/
theorem no_stall (env : PackageEnv) {c : PackageConnection}
    (h : Reach (fun c => c = create env) (fun c event d => Step env c event d ∧ ¬ c.Stalls event) c) :
    NoStall c := by
  have hinit : NoStall (create env) := fun _ hpending => absurd rfl hpending
  refine Reach.invariant (fun s hs => hs ▸ hinit) (fun s event t hreach hs hst => ?_) h
  have hwf : s.Wf env := Reachable.wf (Reach.mono (fun _ _ _ hstep => hstep.1) hreach)
  exact hs.step hwf hst.1 hst.2

/-- Three thousand bytes do not fit in the window, and a second buffer is queued behind them without
a drive: what is left waits behind bytes in flight. -/
theorem no_stall_send : ∃ c : PackageConnection,
    c.state = .establish ∧ c.sendQueue.pending = 484 ∧ 0 < c.sendQueue.getFilght := by
  obtain ⟨c, hrun, hc⟩ := exists_of_any
    (o := (create stackEnv).run stackEnv 5
      [(0, .send (List.replicate 3000 0) 0), (0, .send (List.replicate 100 0) 0)])
    (p := fun c => c.state = .establish ∧ c.sendQueue.pending = 484) (by decide +kernel)
  obtain ⟨hstate, hpending⟩ := of_decide_eq_true hc
  obtain ⟨d, hd, hrest⟩ := exec_cons hrun
  obtain ⟨e, he, hnil⟩ := exec_cons hrest
  obtain rfl := some.inj hnil
  exact ⟨e, hstate, hpending, no_stall stackEnv
    (.next (.next (.start rfl) ⟨⟨5, 0, hd⟩, id⟩) ⟨⟨5, 0, he⟩, id⟩) hstate (by omega)⟩

/-- A hundred bytes are sent, and the peer acknowledges its first position four times. -/
def stallEvents : List (Nat × ConnectionEvent) :=
  (0, .send (List.replicate 100 0) 0) :: List.replicate 4 (0, .push { ackStreamPos := 1 })

theorem stallEvents_run : ((create stackEnv).run stackEnv 5 stallEvents).any (fun c =>
    c.state = .establish ∧ c.sendQueue.pending ≠ 0 ∧ c.sendQueue.getFilght = 0) = true := by
  decide +kernel

/-- The last ack leaves a hundred bytes to send and none in flight. -/
theorem four_acks_stall :
    ¬ ∀ (env : PackageEnv) (c : PackageConnection), Reachable env c → NoStall c := by
  intro h
  obtain ⟨c, hrun, hc⟩ := exists_of_any stallEvents_run
  simp only [decide_eq_true_eq] at hc
  obtain ⟨hstate, hpending, hflight⟩ := hc
  have hpos := h stackEnv c (Reachable.run (.start rfl) hrun) hstate hpending
  omega

end PackageConnection

end Bdt
