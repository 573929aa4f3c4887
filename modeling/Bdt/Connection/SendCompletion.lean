import Bdt.Base.History
import Bdt.Connection.SendStream

/-!
# What a successful send means

A send callback with `BFX_RESULT_SUCCESS` and the full length of its buffer should mean that every
byte of the buffer was in a package, and that the peer acknowledged it (`Completed`). The code
reports success in two places. `SendQueuePopCompleteBuffers` compares the buffers with the largest
ack received, which nothing compares with the send position. `PackageConnectionMaybeCloseFinish`
reports success for every buffer that is left, also after a reset.

So the callbacks are right in the runs whose steps satisfy `CompletesHonestly`: no package
acknowledges bytes that were not sent, and a connection is closed only when what is queued is
acknowledged.
-/

namespace Bdt

open Base Relation List

/-! ## Callbacks and the history before them -/

/-- All bytes before the ack of a package were sent when it arrived. -/
def AckOfSent (front : List Record) (package : Bdt_SessionDataPackage) : Prop :=
  ∀ pos, PACKAGE_CONNECTION_INIT_STREAM_POS ≤ pos → pos < package.ackStreamPos → HandedOut front pos

/-- A package was received that acknowledges the bytes before `pos`. -/
def AckedTo (history : List Record) (pos : Nat) : Prop :=
  ∃ package, .receive package ∈ history ∧ pos ≤ package.ackStreamPos

/-- What a send callback with `BFX_RESULT_SUCCESS` should mean. -/
structure Completed (front : List Record) (buffer : SendQueueSendBuffer) (length : Nat) : Prop where
  full : length = buffer.len
  /-- Every byte was in a package that was sent. -/
  handedOut : ∀ i < buffer.len, ∃ package, .send package ∈ front ∧
    package.streamPos ≤ buffer.startStreamPos + i ∧
    package.payloadBytes[buffer.startStreamPos + i - package.streamPos]? = buffer.data[i]?
  /-- The peer acknowledged its end when all bytes before the ack were sent. -/
  acked : ∃ sent package later, front = sent ++ .receive package :: later ∧
    buffer.endStreamPos ≤ package.ackStreamPos ∧ AckOfSent sent package

/-- Every successful send callback was right when it was made. -/
def CompletionsRight (history : List Record) : Prop :=
  ∀ front buffer length back, history = front ++ .sendComplete buffer length :: back →
    Completed front buffer length

/-- An entry of the history that was right when it was added. -/
def RecordRight (front : List Record) : Record → Prop
  | .receive package => AckOfSent front package
  | .sendComplete buffer length => Completed front buffer length
  | _ => True

theorem AckOfSent.append {front : List Record} {package : Bdt_SessionDataPackage}
    (h : AckOfSent front package) (more : List Record) : AckOfSent (front ++ more) package :=
  fun pos hle hlt => (h pos hle hlt).append more

theorem AckedTo.append {history : List Record} {pos : Nat} (h : AckedTo history pos)
    (more : List Record) : AckedTo (history ++ more) pos := by
  obtain ⟨package, hmem, hle⟩ := h
  exact ⟨package, mem_append_left more hmem, hle⟩

theorem Completed.append {front : List Record} {buffer : SendQueueSendBuffer} {length : Nat}
    (h : Completed front buffer length) (more : List Record) :
    Completed (front ++ more) buffer length where
  full := h.full
  handedOut := by
    intro i hi
    obtain ⟨package, hmem, hbyte⟩ := h.handedOut i hi
    exact ⟨package, mem_append_left more hmem, hbyte⟩
  acked := by
    obtain ⟨sent, package, later, rfl, hack⟩ := h.acked
    exact ⟨sent, package, later ++ more, by simp, hack⟩

theorem RecordRight.append (front more : List Record) (r : Record) (h : RecordRight front r) :
    RecordRight (front ++ more) r := by
  cases r with
  | receive => exact AckOfSent.append h more
  | sendComplete => exact Completed.append h more
  | _ => trivial

theorem Base.Justified.completions {history : List Record} (h : Justified RecordRight history) :
    CompletionsRight history :=
  fun front buffer length back heq => h front (.sendComplete buffer length) back heq

namespace PackageConnection

variable {env : PackageEnv} {c d : PackageConnection}

/-- A queued buffer whose end the peer has acknowledged is complete, when the acks received so far
were for bytes that had been sent. -/
theorem SendStream.completed (h : c.SendStream) (hright : Justified RecordRight c.history)
    {b : SendQueueSendBuffer} (hb : b ∈ c.sendQueue.sendingBuffers.buffers)
    (hack : AckedTo c.history b.endStreamPos) : Completed c.history b b.len := by
  obtain ⟨hstart, hend, hslice⟩ := h.queue.buffers b hb
  obtain ⟨package, hmem, hle⟩ := hack
  obtain ⟨sent, later, heq⟩ := append_of_mem hmem
  have hsent : AckOfSent sent package := hright sent (.receive package) later heq
  refine ⟨rfl, ?_, sent, package, later, heq, hle, hsent⟩
  intro i hi
  have hout : HandedOut c.history (b.startStreamPos + i) := by
    rw [heq]
    exact (hsent _ (by omega) (by omega)).append _
  obtain ⟨carrier, hcarrier, hfrom, hto⟩ := hout
  obtain ⟨hpos, hpart⟩ := h.sends carrier hcarrier
  refine ⟨carrier, hcarrier, hfrom, ?_⟩
  -- both the package and the buffer hold the stream at this position
  have hleft := hpart (b.startStreamPos + i - carrier.streamPos) (by
    rw [Bdt_SessionDataPackage.payloadLength] at hto
    omega)
  have hright := hslice i hi
  rw [← hleft, ← hright]
  congr 1
  omega

/-! ## The steps that keep the callbacks right -/

/-- Everything queued ends at or before `ackStreamPos`. -/
def AllAcked (c : PackageConnection) (ackStreamPos : Nat) : Prop :=
  ∀ b ∈ c.sendQueue.sendingBuffers.buffers, b.endStreamPos ≤ ackStreamPos

/-- A package acknowledges no more than was sent. A reset, the timewait timer, and a `FINACK` that
ends `LASTACK` find everything queued acknowledged, the `FINACK` by its own package at the latest. -/
def CompletesHonestly (c : PackageConnection) : ConnectionEvent → Prop
  | .push package => package.hasFlag SessionDataFlag.SYN = false →
      package.ackStreamPos ≤ c.sendQueue.sendContext.streamPos ∧
        (package.hasFlag SessionDataFlag.FINACK = true → c.closeSubState = .lastack →
          c.AllAcked (max c.sendQueue.sendContext.ackStreamPos package.ackStreamPos))
  | .reset => c.state = .establish → c.AllAcked c.sendQueue.sendContext.ackStreamPos
  | .timewaitTimer => c.AllAcked c.sendQueue.sendContext.ackStreamPos
  | _ => True

/-- The invariant of such runs: the largest ack was received, and every callback was right. -/
structure CompletionInvariant (c : PackageConnection) : Prop where
  level : ∀ pos, PACKAGE_CONNECTION_INIT_STREAM_POS < pos →
    pos ≤ c.sendQueue.sendContext.ackStreamPos → AckedTo c.history pos
  right : Justified RecordRight c.history

/-- What the effects may assume: acks for bytes sent, and closes with nothing unacknowledged. -/
def completionLimits : Limits where
  net c package := package.ackStreamPos ≤ c.sendQueue.sendContext.streamPos
  graceful c := ∀ b ∈ c.sendQueue.sendingBuffers.buffers, AckedTo c.history b.endStreamPos
  reset c := ∀ b ∈ c.sendQueue.sendingBuffers.buffers, AckedTo c.history b.endStreamPos

namespace CompletionInvariant

variable (h : c.CompletionInvariant)
include h

theorem grow {more : List Record}
    (hhist : d.history = c.history ++ more) (hmore : ∀ r ∈ more, RecordRight c.history r)
    (hlevel : d.sendQueue.sendContext.ackStreamPos = c.sendQueue.sendContext.ackStreamPos) :
    d.CompletionInvariant where
  level := by
    intro pos hlt hle
    rw [hhist]
    exact (h.level pos hlt (hlevel ▸ hle)).append more
  right := hhist ▸ h.right.append RecordRight.append hmore

theorem frame (hhist : d.history = c.history)
    (hlevel : d.sendQueue.sendContext.ackStreamPos = c.sendQueue.sendContext.ackStreamPos) :
    d.CompletionInvariant :=
  h.grow (hhist.trans (append_nil _).symm) (by simp) hlevel

/-- A queued buffer that lies before the largest ack was acknowledged. -/
theorem ackedTo (hstream : c.SendStream) {b : SendQueueSendBuffer}
    (hb : b ∈ c.sendQueue.sendingBuffers.buffers)
    (hle : b.endStreamPos ≤ c.sendQueue.sendContext.ackStreamPos) :
    AckedTo c.history b.endStreamPos := by
  obtain ⟨hstart, hend, _⟩ := hstream.queue.buffers b hb
  have hlen : 0 < b.len := length_pos_iff.mpr (hstream.queue.nonempty b hb)
  exact h.level b.endStreamPos (by omega) hle

/-- `PackageConnectionMaybeCloseFinish` when everything queued is acknowledged. -/
theorem maybeCloseFinish (hstream : c.SendStream)
    (hacked : ∀ b ∈ c.sendQueue.sendingBuffers.buffers, AckedTo c.history b.endStreamPos) :
    c.maybeCloseFinish.CompletionInvariant := by
  unfold PackageConnection.maybeCloseFinish
  split
  · refine h.grow (append_assoc _ _ _) ?_ rfl
    intro r hr
    simp only [mem_append, mem_map] at hr
    rcases hr with ⟨_, _, rfl⟩ | ⟨b, hb, rfl⟩
    · trivial
    · exact hstream.completed h.right hb (hacked b hb)
  · exact h

theorem confirm (hwf : c.Wf env) (package : Bdt_SessionDataPackage)
    (hrec : .receive package ∈ c.history) :
    CompletionInvariant
      { c with sendQueue := (c.sendQueue.confirmRange package.ackStreamPos package.sackArray).1 } := by
  unfold SendQueue.confirmRange
  split
  · exact h
  obtain ⟨_, hack, _⟩ := hwf.queue.counted.confirm hwf.queue.ordered package.ackStreamPos
    package.sackArray
  refine ⟨?_, h.right⟩
  intro pos hlt hle
  have hle : pos ≤ max c.sendQueue.sendContext.ackStreamPos package.ackStreamPos := hack ▸ hle
  rcases le_max_iff.mp hle with hle | hle
  · exact h.level pos hlt hle
  · exact ⟨package, hrec, hle⟩

/-- The buffers that `SendQueuePopCompleteBuffers` hands back are acknowledged. -/
theorem complete (hstream : c.SendStream) :
    (({ c with sendQueue := c.sendQueue.popCompleteBuffers.2 }).notifySendCompleteBuffers
      c.sendQueue.popCompleteBuffers.1).CompletionInvariant := by
  obtain ⟨popped, stay, hpop, _, hbuffers, hle, _⟩ := SendingBuffers.popLoop_cases
    c.sendQueue.sendContext.ackStreamPos c.sendQueue.sendingBuffers.buffers
    c.sendQueue.sendingBuffers.curr
  refine h.grow rfl ?_ rfl
  intro r hr
  obtain ⟨b, hb, rfl⟩ := mem_map.mp hr
  have hb : b ∈ popped := hpop ▸ hb
  have hmem : b ∈ c.sendQueue.sendingBuffers.buffers := hbuffers ▸ mem_append_left stay hb
  exact hstream.completed h.right hmem (h.ackedTo hstream hmem (hle b hb))

/-- `PackageConnectionNotifyRecvReadyBuffers` only makes recv callbacks. -/
theorem deliver (force : Bool) : (c.deliver force).CompletionInvariant := by
  unfold PackageConnection.deliver PackageConnection.notifyRecvReadyBuffers
  simp only
  split
  · exact h.frame rfl rfl
  split
  · exact h.frame rfl rfl
  refine h.grow rfl ?_ rfl
  intro r hr
  obtain ⟨_, _, rfl⟩ := mem_map.mp hr
  trivial

/-- Every effect keeps the callbacks right, as long as the limits are kept. -/
theorem effect (hwf : c.Wf env) (hstream : c.SendStream)
    (he : Effect env completionLimits c d) : d.CompletionInvariant := by
  cases he with
  | note | subState | beginClose => exact h.frame rfl rfl
  | fill _ _ _ _ hfill => exact h.frame rfl hfill.fields.2.1
  | transmit _ _ _ _ _ hfill => exact h.grow rfl (by simp [RecordRight]) hfill.fields.2.1
  | accept _ _ queue _ hadd =>
    have hlevel : queue.sendContext.ackStreamPos = c.sendQueue.sendContext.ackStreamPos := by
      unfold SendQueue.addBuffer at hadd
      split at hadd <;> cases hadd
      rfl
    exact h.grow rfl (by simp [RecordRight]) hlevel
  | reset hstate hlimit =>
    unfold PackageConnection.reset
    rw [if_pos hstate]
    refine maybeCloseFinish (h.grow rfl (by simp [RecordRight]) rfl)
      (hstream.frame rfl (by simp [Record.outgoing]) rfl nofun) ?_
    intro b hb
    exact (hlimit b hb).append _
  | closed _ _ _ hlimit =>
    exact maybeCloseFinish (h.frame rfl rfl)
      (hstream.frame (append_nil _).symm (by simp) rfl id) hlimit
  | receive _ hnet =>
    refine h.grow rfl ?_ rfl
    intro r hr
    obtain rfl := mem_singleton.mp hr
    intro pos hle hlt
    exact hstream.handedOut pos hle (Nat.lt_of_lt_of_le hlt hnet)
  | confirm package hrec => exact h.confirm hwf package hrec
  | complete => exact h.complete hstream
  | write =>
    unfold writePackage
    split <;> split <;> exact h.frame rfl rfl
  | deliver force => exact h.deliver force
  | timeout rto now =>
    exact h.frame rfl (SendContext.markRangeTimeout_fields c.sendQueue.sendContext false rto now).1
  | addRecv =>
    unfold PackageConnection.recv
    split
    · exact h
    · exact h.frame rfl rfl

end CompletionInvariant

/-! ## Runs -/

/-- A graceful close in an honest step finds everything queued acknowledged. -/
theorem CompletionInvariant.closePoint (h : c.CompletionInvariant) (hwf : c.Wf env)
    (hstream : c.SendStream) {fuel now : Nat} {event : ConnectionEvent}
    (honest : c.CompletesHonestly event) (hpoint : ClosePoint env fuel now c event d) :
    completionLimits.graceful d := by
  intro b hb
  rcases hpoint.before with ⟨rfl, rfl⟩ | ⟨package, rfl, hsyn, hfinAck, hbefore⟩
  · exact h.ackedTo hstream hb (honest b hb)
  have hreceived : ∀ pos, pos ≤ package.ackStreamPos →
      AckedTo (c.history ++ [Record.receive package]) pos :=
    fun pos hle => ⟨package, by simp, hle⟩
  rcases hbefore with ⟨hlast, rfl⟩ | ⟨_, hstate, _, hacked, hdrive⟩
  · -- the connection was in `LASTACK` before the package
    rcases le_max_iff.mp ((honest hsyn).2 hfinAck hlast b hb) with hle | hle
    · exact (h.ackedTo hstream hb hle).append [Record.receive package]
    · exact hreceived _ hle
  -- the package made it send its `FIN`: all the bytes it ever took were acknowledged
  have heffects : ReflTransGen (FreeEffect env) _ d := sendDrive_effects hdrive
  have hclosing : SendStream { c.beginPush now package with
      closeSubState := .waitclose, state := .closing
      selfCloseStreamPos := c.sendQueue.sendingBuffers.streamPos } :=
    hstream.frame rfl (by simp [Record.outgoing]) rfl nofun
  have hwfClosing : Wf env { c.beginPush now package with
      closeSubState := .waitclose, state := .closing
      selfCloseStreamPos := c.sendQueue.sendingBuffers.streamPos } :=
    ⟨hwf.queue, hwf.mtu, hwf.cc, fun _ => rfl⟩
  have hd : d.SendStream := (reflTransGen_preserves (fun e => e.Wf env ∧ e.SendStream)
    (fun _ _ hi he => ⟨hi.1.effect he, hi.2.effect hi.1 he⟩) heffects
    ⟨hwfClosing, hclosing⟩).2
  have hend : b.endStreamPos ≤ c.sendQueue.sendContext.ackStreamPos := by
    have hle := hd.queue.end_le hb
    rw [(sendDrive_driven hdrive).streamPos] at hle
    exact hacked ▸ hle
  have hstart := (hd.queue.buffers b hb).1
  have hlen : b.startStreamPos < b.endStreamPos := by
    rw [(hd.queue.buffers b hb).2.1]
    exact Nat.lt_add_of_pos_right (length_pos_iff.mpr (hd.queue.nonempty b hb))
  obtain ⟨more, hmore⟩ := effects_history heffects
  rw [← hmore]
  exact ((h.level b.endStreamPos (by omega) hend).append [Record.receive package]).append more

theorem CompletionInvariant.step (h : c.CompletionInvariant) (hwf : c.Wf env)
    (hstream : c.SendStream) {event : ConnectionEvent} (hstep : Step env c event d)
    (honest : c.CompletesHonestly event) : d.CompletionInvariant := by
  obtain ⟨fuel, now, hstep⟩ := hstep
  have heffects : ReflTransGen (Effect env completionLimits) c d := by
    refine handle_effects hstep ?_ (fun e hpoint => h.closePoint hwf hstream honest hpoint) ?_
    · rintro package rfl hsyn
      exact (honest hsyn).1
    · rintro rfl hstate b hb
      exact h.ackedTo hstream hb (honest hstate b hb)
  exact (reflTransGen_preserves (fun e => e.Wf env ∧ e.SendStream ∧ e.CompletionInvariant)
    (fun _ _ hi he => ⟨hi.1.effect he, hi.2.1.effect hi.1 he, hi.2.2.effect hi.1 hi.2.1 he⟩)
    heffects ⟨hwf, hstream, h⟩).2.2

/-- The states of the runs whose steps are all honest. -/
def HonestlyReachable (env : PackageEnv) : PackageConnection → Prop :=
  Reach (fun c => c = create env) (fun c event d => Step env c event d ∧ c.CompletesHonestly event)

theorem HonestlyReachable.reachable (h : HonestlyReachable env c) : Reachable env c :=
  Reach.mono (fun _ _ _ hstep => hstep.1) h

/-- In a run whose steps are all honest, every successful send callback was right when it was
made. -/
theorem completions_right (env : PackageEnv) {c : PackageConnection}
    (h : HonestlyReachable env c) : CompletionsRight c.history := by
  have hinit : (create env).CompletionInvariant :=
    ⟨fun _ hlt hle => absurd hle (Nat.not_le.mpr hlt), justified_nil⟩
  have hinv : c.CompletionInvariant := by
    refine Reach.invariant (fun s hs => hs ▸ hinit) (fun s event t hreach hs hst => ?_) h
    have hr : Reachable env s := HonestlyReachable.reachable hreach
    exact hs.step hr.wf hr.sendStream hst.1 hst.2
  exact hinv.right.completions

/-- A hundred bytes are sent and acknowledged. -/
def completeEvents : List (Nat × ConnectionEvent) :=
  [(0, .send (List.replicate 100 0) 7), (0, .push { ackStreamPos := 101 })]

/-- The callback for these bytes is right. -/
theorem completions_right_ack :
    ∃ c b, (create stackEnv).run stackEnv 5 completeEvents = some c ∧
      .sendComplete b 100 ∈ c.history ∧ CompletionsRight c.history := by
  obtain ⟨c, hrun, hc⟩ := exists_of_any (o := (create stackEnv).run stackEnv 5 completeEvents)
    (p := fun c => .sendComplete ⟨List.replicate 100 0, 1, 101, 101, 7⟩ 100 ∈ c.history)
    (by decide +kernel)
  obtain ⟨s, hs, hrest⟩ := exec_cons hrun
  obtain ⟨t, ht, hnil⟩ := exec_cons hrest
  obtain rfl := Option.some.inj hnil
  obtain ⟨s', hs', hpos⟩ := exists_of_any
    (o := (create stackEnv).handle stackEnv 5 0 (.send (List.replicate 100 0) 7))
    (p := fun c => 101 ≤ c.sendQueue.sendContext.streamPos) (by decide +kernel)
  obtain rfl := Option.some.inj (hs.symm.trans hs')
  have hhonest : s.CompletesHonestly (.push { ackStreamPos := 101 }) :=
    fun _ => ⟨of_decide_eq_true hpos, fun hfinAck => absurd hfinAck (by decide)⟩
  exact ⟨t, _, hrun, of_decide_eq_true hc, completions_right stackEnv
    (.next (.next (.start rfl) ⟨⟨5, 0, hs⟩, trivial⟩) ⟨⟨5, 0, ht⟩, hhonest⟩)⟩

/-- A hundred bytes are sent, and the connection is reset. -/
def resetEvents : List (Nat × ConnectionEvent) :=
  [(0, .send (List.replicate 100 0) 7), (0, .reset)]

theorem resetEvents_run : ((create stackEnv).run stackEnv 5 resetEvents).any (fun c =>
    c.history.getLast? = some (.sendComplete ⟨List.replicate 100 0, 1, 101, 101, 7⟩ 100) &&
      c.history.all fun r => match r with
        | .receive _ => false
        | _ => true) = true := by
  decide +kernel

/-- The reset reports the hundred bytes as sent, and nothing was received. -/
theorem reset_reports_success :
    ¬ ∀ (env : PackageEnv) (c : PackageConnection), Reachable env c →
      CompletionsRight c.history := by
  intro h
  obtain ⟨c, hrun, hc⟩ := exists_of_any resetEvents_run
  obtain ⟨hlast, hall⟩ := Bool.and_eq_true_iff.mp hc
  obtain ⟨front, hfront⟩ := List.getLast?_eq_some_iff.mp (of_decide_eq_true hlast)
  obtain ⟨sent, package, later, hreceived, _⟩ :=
    (h stackEnv c (Reachable.run (.start rfl) hrun) front _ _ [] hfront).acked
  have hmem : .receive package ∈ c.history := by simp [hfront, hreceived]
  exact absurd (all_eq_true.mp hall _ hmem) (by simp)

end PackageConnection

end Bdt
