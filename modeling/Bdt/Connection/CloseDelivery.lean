import Bdt.Connection.Receiving

/-!
# What a graceful close leaves undelivered

When a connection is closed by `FIN` and `FINACK`, `PackageConnectionMaybeCloseFinish` hands the
users' buffers back with length zero. `close_delivers_iff`: every byte that the peer was told is
received has been delivered by then if and only if the read position had caught up with the ack
position when the last event came. A partly filled buffer waits for more data, for a package shorter
than the mtu, or for the recv timer, and a `FINACK` does not wait for any of them.
-/

namespace Bdt

open Base Relation List Option

namespace PackageConnection

variable {env : PackageEnv} {limits : Limits} {c d : PackageConnection}

/-- Every byte that counts as received was delivered, and nothing was delivered after the first
buffer that was handed back empty. -/
structure AllDelivered (c : PackageConnection) : Prop where
  bytes : ∀ pos, PACKAGE_CONNECTION_INIT_STREAM_POS ≤ pos →
    pos < c.recvQueue.recvBlock.ackStreamPos →
    ∃ x, (delivered c.history)[pos - PACKAGE_CONNECTION_INIT_STREAM_POS]? = some x ∧
      Arrived c.history pos x
  before : ∀ front userData back, c.history = front ++ .recv [] userData :: back →
    delivered back = []

/-- All bytes are delivered exactly when the read position is the ack position. -/
theorem Receiving.allDelivered_iff (h : c.Receiving) :
    c.AllDelivered ↔ c.recvQueue.recvStream.readStreamPos = c.recvQueue.recvBlock.ackStreamPos := by
  have hcount := h.count
  have hle := h.read_le
  constructor
  · intro hall
    by_contra hne
    -- the byte at the read position is not delivered
    obtain ⟨x, hx, _⟩ := hall.bytes c.recvQueue.recvStream.readStreamPos (by omega) (by omega)
    obtain ⟨hlt, _⟩ := List.getElem?_eq_some_iff.mp hx
    omega
  intro heq
  refine ⟨fun pos hpos hlt => ?_, ?_⟩
  · obtain ⟨x, hx⟩ : ∃ x, (delivered c.history)[pos - PACKAGE_CONNECTION_INIT_STREAM_POS]? =
        some x := ⟨_, List.getElem?_eq_getElem (by omega)⟩
    have harr := h.bytes _ x hx
    rw [show PACKAGE_CONNECTION_INIT_STREAM_POS + (pos - PACKAGE_CONNECTION_INIT_STREAM_POS) = pos
      by omega] at harr
    exact ⟨x, hx, harr⟩
  intro front userData back hhist
  obtain ⟨live, tail, hlive, hno, htail, _⟩ := h.returned
  rw [hhist] at hlive
  rcases append_eq_append_iff.mp hlive with ⟨between, rfl, hback⟩ | ⟨between, rfl, hback⟩
  · -- the empty buffer would be before the close
    cases between with
    | nil =>
      obtain rfl : Record.recv [] userData :: back = tail := by simpa using hback
      exact append_eq_nil_iff.mp htail |>.2
    | cons =>
      obtain ⟨rfl, _⟩ := cons.inj hback
      exact absurd (mem_append_right front mem_cons_self) (hno userData)
  · rw [hback, delivered_append] at htail
    exact (append_eq_nil_iff.mp htail).2

/-! ## The step that closes the connection -/

/-- Effects without a close. -/
def neverCloses : Limits where
  graceful _ := False
  reset _ := False

theorem Effect.open (he : Effect env neverCloses c d) (hopen : c.state ≠ .close) :
    d.state ≠ .close := by
  cases he with
  | beginClose => simp
  | reset _ hlimit => exact hlimit.elim
  | closed _ _ _ hlimit => exact hlimit.elim
  | write =>
    unfold writePackage
    split <;> split <;> exact hopen
  | deliver =>
    unfold PackageConnection.deliver notifyRecvReadyBuffers
    simp only
    split
    · exact hopen
    · split <;> exact hopen
  | addRecv =>
    unfold PackageConnection.recv
    split <;> exact hopen
  | _ => exact hopen

theorem effects_open (he : ReflTransGen (Effect env neverCloses) c d) (hopen : c.state ≠ .close) :
    d.state ≠ .close :=
  reflTransGen_preserves (fun e => e.state ≠ .close) (fun _ _ hs ht => Effect.open ht hs) he hopen

/-- What a closed connection keeps: the ack position and the bytes delivered. -/
structure Settled (c d : PackageConnection) : Prop where
  closed : d.state = .close
  ack : d.recvQueue.recvBlock.ackStreamPos = c.recvQueue.recvBlock.ackStreamPos
  delivered : delivered d.history = delivered c.history

theorem Settled.of_records (hclosed : d.state = .close)
    (hack : d.recvQueue.recvBlock.ackStreamPos = c.recvQueue.recvBlock.ackStreamPos)
    {more : List Record} (hhist : d.history = c.history ++ more)
    (hmore : ∀ r ∈ more, r.notRecv = true) : Settled c d :=
  ⟨hclosed, hack, by rw [hhist, delivered_append, delivered_notRecv hmore, append_nil]⟩

theorem maybeCloseFinish_closed (hclosed : c.state = .close) : c.maybeCloseFinish = c := by
  unfold PackageConnection.maybeCloseFinish
  rw [if_neg]
  rintro ⟨_, _, hclosing⟩
  rw [hclosed] at hclosing
  cases hclosing

/-- Nothing is received or delivered once the connection is closed. -/
theorem Effect.settled (he : Effect env limits c d) (h : c.Receiving) (hclosed : c.state = .close) :
    Settled c d := by
  have hframe : ∀ {e : PackageConnection}, e.state = c.state → e.recvQueue = c.recvQueue →
      e.history = c.history → Settled c e :=
    fun hstate hqueue hhist => ⟨hstate.trans hclosed, by rw [hqueue], by rw [hhist]⟩
  cases he with
  | note | subState | fill | confirm | timeout => exact hframe rfl rfl rfl
  | transmit _ _ _ _ _ _ _ hstate => exact absurd hclosed hstate
  | accept _ _ _ hstate => exact absurd (hstate.symm.trans hclosed) (by simp)
  | beginClose hstate => exact absurd (hstate.symm.trans hclosed) (by simp)
  | reset hstate => exact absurd (hstate.symm.trans hclosed) (by simp)
  | closed =>
    rw [maybeCloseFinish_closed]
    · exact hframe rfl rfl rfl
    · exact hclosed
  | receive => exact .of_records hclosed rfl rfl (by simp [Record.notRecv])
  | complete =>
    refine .of_records hclosed rfl rfl fun r hr => ?_
    obtain ⟨_, _, rfl⟩ := mem_map.mp hr
    rfl
  | write package =>
    have hblock := (RecvQueue.writeData_empty (h.empty hclosed) h.read_le package.streamPos
      package.payloadBytes).1
    unfold writePackage
    simp only
    split <;> split
    · exact ⟨hclosed, congrArg RecvBlocks.ackStreamPos hblock, rfl⟩
    · exact ⟨hclosed, congrArg RecvBlocks.ackStreamPos hblock, rfl⟩
    · exact hframe rfl rfl rfl
    · exact hframe rfl rfl rfl
  | deliver force =>
    have hpop : (c.recvQueue.popCompleteBuffers force).1 = [] ∧
        (c.recvQueue.popCompleteBuffers force).2.recvBlock = c.recvQueue.recvBlock := by
      unfold RecvQueue.popCompleteBuffers
      rw [h.empty hclosed]
      exact ⟨rfl, rfl⟩
    unfold PackageConnection.deliver
    simp only
    rw [if_pos hpop.1]
    exact ⟨hclosed, congrArg RecvBlocks.ackStreamPos hpop.2, rfl⟩
  | addRecv =>
    unfold PackageConnection.recv
    rw [if_pos hclosed]
    exact hframe rfl rfl rfl

theorem effects_settled (he : ReflTransGen (Effect env limits) c d) (h : c.Receiving)
    (hclosed : c.state = .close) : Settled c d := by
  have hall : d.Receiving ∧ Settled c d := by
    refine reflTransGen_preserves (fun e => e.Receiving ∧ Settled c e) (fun s t hs ht => ?_) he
      ⟨h, hclosed, rfl, rfl⟩
    have hnext := Effect.settled ht hs.1 hs.2.closed
    exact ⟨hs.1.effect ht, hnext.closed, hnext.ack.trans hs.2.ack,
      hnext.delivered.trans hs.2.delivered⟩
  exact hall.2

/-- The ack position and the bytes delivered are the same. -/
structure Unreceived (c d : PackageConnection) : Prop where
  ack : d.recvQueue.recvBlock.ackStreamPos = c.recvQueue.recvBlock.ackStreamPos
  delivered : delivered d.history = delivered c.history

theorem Unreceived.trans {b c d : PackageConnection} (h : Unreceived b c) (h' : Unreceived c d) :
    Unreceived b d :=
  ⟨h'.ack.trans h.ack, h'.delivered.trans h.delivered⟩

theorem Driven.unreceived (h : Driven c d) : Unreceived c d := by
  obtain ⟨packages, hhist⟩ := h.history
  refine ⟨by rw [h.recvQueue], ?_⟩
  have hsends : ∀ r ∈ packages.map Record.send, r.notRecv = true := by
    intro r hr
    obtain ⟨_, _, rfl⟩ := mem_map.mp hr
    rfl
  rw [hhist, delivered_append, delivered_notRecv hsends, append_nil]

theorem maybeCloseFinish_unreceived (c : PackageConnection) : Unreceived c c.maybeCloseFinish := by
  unfold PackageConnection.maybeCloseFinish
  split
  · refine ⟨rfl, ?_⟩
    rw [delivered_append, delivered_append]
    have hrecv : ∀ buffers : List RecvQueueRecvBuffer,
        delivered (buffers.map fun b => Record.recv [] b.userData) = [] := by
      intro buffers
      refine flatMap_eq_nil_iff.mpr fun r hr => ?_
      obtain ⟨_, _, rfl⟩ := mem_map.mp hr
      rfl
    have hsend : ∀ buffers : List SendQueueSendBuffer,
        delivered (buffers.map fun b => Record.sendComplete b b.len) = [] := by
      intro buffers
      refine delivered_notRecv fun r hr => ?_
      obtain ⟨_, _, rfl⟩ := mem_map.mp hr
      rfl
    rw [hrecv, hsend, append_nil, append_nil]
  · exact ⟨rfl, rfl⟩

/-- The `FIN` and `FINACK` of a package receive nothing. -/
theorem updateCloseSubStateOnRecv_unreceived {fuel now : Nat} {cmdflags : CmdFlags}
    (h : c.updateCloseSubStateOnRecv env fuel now cmdflags = some d) : Unreceived c d := by
  obtain ⟨e, he, hd⟩ := bind_eq_some_iff.mp h
  have hclose : ∀ {b : PackageConnection}, b.close env fuel now = some e → Unreceived b e := by
    intro b hb
    unfold PackageConnection.close at hb
    split at hb
    · simp only at hb
      split at hb
      · have hdrive := (sendDrive_driven hb).unreceived
        exact ⟨hdrive.ack, hdrive.delivered⟩
      · exact some.inj hb ▸ ⟨rfl, rfl⟩
    · exact some.inj hb ▸ ⟨rfl, rfl⟩
  have hfin : Unreceived c e := by
    split at he
    · unfold onRecvFin at he
      split at he
      · simp only at he
        split at he
        · exact some.inj he ▸ ⟨rfl, rfl⟩
        · exact Unreceived.trans (c := { c with closeSubState := .waitclose }) ⟨rfl, rfl⟩ (hclose he)
      all_goals exact some.inj he ▸ ⟨rfl, rfl⟩
    · exact some.inj he ▸ ⟨rfl, rfl⟩
  cases hd
  split
  · unfold onRecvFinAck
    split
    · exact ⟨hfin.ack, hfin.delivered⟩
    · exact ⟨hfin.ack, hfin.delivered⟩
    · have hfinish := maybeCloseFinish_unreceived
        { e with closeSubState := .closed, closeSend := true, closeTimer := .idle }
      exact hfin.trans ⟨hfinish.ack, hfinish.delivered⟩
    · exact hfin
  · exact hfin

theorem Receiving.closing_unreceived (h : c.Receiving) {event : ConnectionEvent}
    (hstep : Step env c event d) (hopen : c.state ≠ .close) (hclose : d.state = .close)
    (hreset : event ≠ .reset) : Unreceived c d := by
  obtain ⟨fuel, now, hstep⟩ := hstep
  -- an event that cannot close the connection is excluded
  have hnever : (∀ e, ¬ ClosePoint env fuel now c event e) → Unreceived c d := by
    intro hno
    have heffects : ReflTransGen (Effect env neverCloses) c d :=
      handle_effects hstep (fun _ _ _ => trivial) (fun e hpoint => hno e hpoint)
        fun hevent => absurd hevent hreset
    exact absurd hclose (effects_open heffects hopen)
  cases event with
  | timewaitTimer =>
    simp only [handle] at hstep
    split at hstep
    · cases hstep
      have hfinish := maybeCloseFinish_unreceived
        { c with closeTimer := .idle, closeRecv := true, closeSubState := .closed }
      exact ⟨hfinish.ack, hfinish.delivered⟩
    · cases hstep
  | push package =>
    simp only [handle, pushPackage] at hstep
    split at hstep
    case isTrue hsyn =>
      refine hnever fun e hpoint => ?_
      cases hpoint with
      | finAck _ _ hno => rw [hsyn] at hno; cases hno
    case isFalse =>
    obtain ⟨e, he, hstep⟩ := bind_eq_some_iff.mp hstep
    obtain ⟨f, hf, hstep⟩ := bind_eq_some_iff.mp hstep
    have hbegin : ReflTransGen (FreeEffect env) c (c.beginPush now package) :=
      beginPush_effects trivial
    have hsub : ReflTransGen (FreeEffect env) (c.beginPush now package) e :=
      updateCloseSubStateOnRecv_effects he fun _ _ _ _ => trivial
    have hrec : .receive package ∈ e.history :=
      (effects_history hsub).subset (by simp [beginPush, estimateRtt])
    have hack : ReflTransGen (Effect env neverCloses) e f := pushAck_effects hrec hf
    have hdata : ReflTransGen (Effect env neverCloses) f d :=
      pushData_effects ((effects_history hack).subset hrec) hstep
    have hreceiving : e.Receiving := (h.effects hbegin).effects hsub
    have hfirst : Unreceived c e := by
      refine Unreceived.trans (c := c.beginPush now package) ⟨rfl, ?_⟩
        (updateCloseSubStateOnRecv_unreceived he)
      show delivered (c.history ++ [Record.receive package]) = _
      rw [delivered_append]
      exact append_nil _
    by_cases heclose : e.state = .close
    · have hsettled := effects_settled (hack.trans hdata) hreceiving heclose
      exact hfirst.trans ⟨hsettled.ack, hsettled.delivered⟩
    · exact absurd hclose (effects_open (hack.trans hdata) heclose)
  | reset => exact absurd rfl hreset
  | send | recv | close | rtoTimer | recvTimer | finTimer => exact hnever fun e hpoint => by cases hpoint

/-! ## The theorem -/

/-- The event that closes a connection, other than a reset, finds everything delivered that counts as
received if and only if the read position had caught up with the ack position before it. -/
theorem close_delivers_iff (env : PackageEnv) {c d : PackageConnection} {event : ConnectionEvent}
    (hc : Reachable env c) (hstep : Step env c event d) (hopen : c.state ≠ .close)
    (hclose : d.state = .close) (hreset : event ≠ .reset) :
    d.AllDelivered ↔ c.recvQueue.recvStream.readStreamPos = c.recvQueue.recvBlock.ackStreamPos := by
  have hbefore := hc.receiving
  have hafter : d.Receiving := Reachable.receiving (.next hc hstep)
  obtain ⟨hack, hdelivered⟩ := hbefore.closing_unreceived hstep hopen hclose hreset
  have hcount := hafter.count
  have hcount' := hbefore.count
  rw [hafter.allDelivered_iff, hack, ← hcount, hdelivered, hcount']

/-- The peer sends `payload` with its `FIN`, the user closes the connection, and the peer
acknowledges that. -/
def closeEvents (payload : List UInt8) : List (Nat × ConnectionEvent) :=
  [(0, .recv 0 (List.replicate 4000 0) 0),
    (0, .push { cmdflags := fillFlags true false, streamPos := 1, ackStreamPos := 1
                payload := some payload }),
    (0, .close)] ++
  [(0, .push { cmdflags := fillFlags false true, streamPos := 1 + payload.length, ackStreamPos := 1 })]

/-- Three bytes are delivered at once, and the close finds nothing left. -/
theorem close_delivers_short :
    ∃ d, (create stackEnv).run stackEnv 10 (closeEvents [1, 2, 3]) = some d ∧ d.state = .close ∧
      d.AllDelivered := by
  obtain ⟨d, hrun, hclose⟩ := exists_of_any
    (o := (create stackEnv).run stackEnv 10 (closeEvents [1, 2, 3]))
    (p := fun d => d.state = .close) (by decide +kernel)
  obtain ⟨c, hfront, hc⟩ := exists_of_any
    (o := (create stackEnv).run stackEnv 10 ((closeEvents [1, 2, 3]).take 3))
    (p := fun c => c.state ≠ .close ∧
      c.recvQueue.recvStream.readStreamPos = c.recvQueue.recvBlock.ackStreamPos) (by decide +kernel)
  simp only [decide_eq_true_eq] at hclose hc
  have hlast : c.handle stackEnv 10 0 (.push
      { cmdflags := fillFlags false true, streamPos := 1 + [1, 2, 3].length, ackStreamPos := 1 }) =
        some d := by
    unfold PackageConnection.run at hrun hfront
    rw [show closeEvents [1, 2, 3] = (closeEvents [1, 2, 3]).take 3 ++ [_] from rfl, exec_concat,
      hfront] at hrun
    exact hrun
  exact ⟨d, hrun, hclose, (close_delivers_iff stackEnv (Reachable.run (.start rfl) hfront)
    ⟨10, 0, hlast⟩ hc.1 hclose nofun).mpr hc.2⟩

/-- A package of a whole mtu stays in its buffer, and the close hands the buffer back empty. -/
theorem close_loses_full :
    ¬ ∀ (env : PackageEnv) (c d : PackageConnection) (event : ConnectionEvent), Reachable env c →
      Step env c event d → c.state ≠ .close → d.state = .close → event ≠ .reset →
      d.AllDelivered := by
  intro h
  obtain ⟨d, hrun, hd⟩ := exists_of_any
    (o := (create stackEnv).run stackEnv 10 (closeEvents (List.replicate 1308 7)))
    (p := fun d => d.state = .close ∧ d.recvQueue.recvStream.readStreamPos = 1 ∧
      d.recvQueue.recvBlock.ackStreamPos = 1309) (by decide +kernel)
  obtain ⟨c, hfront, hc⟩ := exists_of_any
    (o := (create stackEnv).run stackEnv 10 ((closeEvents (List.replicate 1308 7)).take 3))
    (p := fun c => c.state ≠ .close) (by decide +kernel)
  simp only [decide_eq_true_eq] at hd hc
  have hlast : c.handle stackEnv 10 0 (.push { cmdflags := fillFlags false true
                                               streamPos := 1 + (List.replicate 1308 (7 : UInt8)).length
                                               ackStreamPos := 1 }) = some d := by
    unfold PackageConnection.run at hrun hfront
    rw [show closeEvents (List.replicate 1308 7) =
      (closeEvents (List.replicate 1308 7)).take 3 ++ [_] from rfl, exec_concat, hfront] at hrun
    exact hrun
  have hreach : Reachable stackEnv c := Reachable.run (.start rfl) hfront
  have hall := h stackEnv c d _ hreach ⟨10, 0, hlast⟩ hc hd.1 nofun
  have hread := (Reachable.receiving (.next hreach ⟨10, 0, hlast⟩)).allDelivered_iff.mp hall
  omega

end PackageConnection

end Bdt
