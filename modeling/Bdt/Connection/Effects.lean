import Bdt.Base.Transition
import Bdt.Connection.PackageConnection

/-!
# The effects of a handler

A handler of the connection is a sequence of steps that each touch few fields: it fills a package,
sends it, confirms a range, writes data, and so on. `Effect` lists these steps with what the code
has tested when it takes them, and `handle_effects` says that every handler is a sequence of them.
An invariant of the connection is then proved once for each effect.

`Limits` are the assumptions a property makes about the environment: which packages arrive, and
when the connection may be closed.
-/

namespace Bdt

open Base Relation List Option

/-- What a property assumes about the environment. -/
structure Limits where
  /-- The packages that may arrive at a connection. -/
  net : PackageConnection → Bdt_SessionDataPackage → Prop := fun _ _ => True
  /-- When a `FINACK` or the timewait timer may close a connection. -/
  graceful : PackageConnection → Prop := fun _ => True
  /-- When a connection may be reset. -/
  reset : PackageConnection → Prop := fun _ => True

/-- The stream position behind the payload that a fill hands out. -/
def Fill.endPos (fill : Fill) : Nat :=
  fill.streamPos + (fill.payload.getD []).length

/-- The bytes that wait to be sent, for the first time or again. -/
def SendQueue.pending (queue : SendQueue) : Nat :=
  queue.getUnsendSize + queue.getLostSize

namespace PackageConnection

/-- The room that `PackageConnectionSendDrive` asks the congestion control for. -/
def room (c : PackageConnection) : Nat :=
  c.cc.trySendPayload c.sendQueue.getFilght

/-- What `PackageConnectionFillPackage` takes from the send queue: a payload only when there is room
for a whole mtu. -/
def Filled (env : PackageEnv) (now : Nat) (c : PackageConnection) (sent : Bool) (fill : Fill)
    (queue : SendQueue) : Prop :=
  (c.room = env.config.mtu ∧ c.sendQueue.fillPayload now = some (sent, fill, queue)) ∨
  (c.room ≠ env.config.mtu ∧ sent = false ∧
    fill = { streamPos := c.sendQueue.sendContext.streamPos, payload := none } ∧
    queue = c.sendQueue)

/-- The fields of the package that the send drive makes of a fill. -/
structure Outgoing (c : PackageConnection) (fill : Fill) (package : Bdt_SessionDataPackage) :
    Prop where
  streamPos : package.streamPos = fill.streamPos
  payload : package.payload = fill.payload
  ackStreamPos : package.ackStreamPos = c.recvQueue.recvBlock.ackStreamPos
  syn : package.hasFlag SessionDataFlag.SYN = false
  fin : package.hasFlag SessionDataFlag.FIN = c.wantsFin fill.endPos
  finAck : package.hasFlag SessionDataFlag.FINACK = c.wantsFinAck

/-- One step of a handler. -/
inductive Effect (env : PackageEnv) (limits : Limits) : PackageConnection → PackageConnection → Prop
  /-- Timers, clocks, estimates and the congestion control. -/
  | note (c : PackageConnection) (cc : LedbatCc) (closeTimer : CloseTimer)
      (rto lastRecvAckTime : Nat) (rtoTimer recvTimer : Bool) (lastLostStateTime : Nat)
      (rttEst : RttEst) (hcc : ∀ config, c.cc.Wf config → cc.Wf config) :
      Effect env limits c
        { c with
          cc := cc, closeTimer := closeTimer, rto := rto, lastRecvAckTime := lastRecvAckTime
          rtoTimer := rtoTimer, recvTimer := recvTimer, lastLostStateTime := lastLostStateTime
          rttEst := rttEst }
  | subState (c : PackageConnection) (closeSubState : PackageConnectionCloseSubState)
      (closeRecv closeSend : Bool) (hsub : closeSubState ≠ .closed) :
      Effect env limits c
        { c with closeSubState := closeSubState, closeRecv := closeRecv, closeSend := closeSend }
  /-- A fill whose package is not sent: it has no payload, or the connection is closed. -/
  | fill (c : PackageConnection) (now : Nat) (sent : Bool) (fill : Fill) (queue : SendQueue)
      (hfill : Filled env now c sent fill queue) (hidle : sent = false ∨ c.state = .close) :
      Effect env limits c { c with sendQueue := queue }
  /-- A fill whose package is sent. -/
  | transmit (c : PackageConnection) (now : Nat) (sent : Bool) (fill : Fill) (queue : SendQueue)
      (package : Bdt_SessionDataPackage) (hfill : Filled env now c sent fill queue)
      (hout : Outgoing c fill package) (hstate : c.state ≠ .close) :
      Effect env limits c
        { c with sendQueue := queue, history := c.history ++ [Record.send package] }
  | accept (c : PackageConnection) (data : List UInt8) (userData : Nat) (queue : SendQueue)
      (hstate : c.state = .establish) (hadd : c.sendQueue.addBuffer data userData = some queue) :
      Effect env limits c
        { c with sendQueue := queue, history := c.history ++ [Record.accept data userData] }
  | beginClose (c : PackageConnection) (hstate : c.state = .establish) :
      Effect env limits c
        { c with state := .closing, selfCloseStreamPos := c.sendQueue.addCloseOperation.1 }
  | reset (c : PackageConnection) (hstate : c.state = .establish) (hlimit : limits.reset c) :
      Effect env limits c c.reset
  /-- A `FINACK` or the timewait timer closes the connection. -/
  | closed (c : PackageConnection) (closeRecv closeSend : Bool) (closeTimer : CloseTimer)
      (hlimit : limits.graceful c) :
      Effect env limits c
        { c with closeSubState := .closed, closeRecv := closeRecv, closeSend := closeSend
                 closeTimer := closeTimer }.maybeCloseFinish
  | receive (c : PackageConnection) (package : Bdt_SessionDataPackage)
      (hnet : limits.net c package) :
      Effect env limits c { c with history := c.history ++ [Record.receive package] }
  | confirm (c : PackageConnection) (package : Bdt_SessionDataPackage)
      (hrec : .receive package ∈ c.history) :
      Effect env limits c
        { c with sendQueue := (c.sendQueue.confirmRange package.ackStreamPos package.sackArray).1 }
  | complete (c : PackageConnection) :
      Effect env limits c
        ({ c with sendQueue := c.sendQueue.popCompleteBuffers.2 }.notifySendCompleteBuffers
          c.sendQueue.popCompleteBuffers.1)
  | write (c : PackageConnection) (package : Bdt_SessionDataPackage)
      (hrec : .receive package ∈ c.history) :
      Effect env limits c (c.writePackage package).2
  | deliver (c : PackageConnection) (force : Bool) : Effect env limits c (c.deliver force)
  | timeout (c : PackageConnection) (rto now : Nat) :
      Effect env limits c { c with sendQueue := (c.sendQueue.markRangeTimeout false rto now).1 }
  | addRecv (c : PackageConnection) (address : Nat) (data : List UInt8) (userData : Nat) :
      Effect env limits c (c.recv address data userData)

/-! ## The send drive -/

/-- `PackageConnectionFillPackage` gives a package to send. -/
def sends (c : PackageConnection) (sent : Bool) (fill : Fill) : Bool :=
  sent || c.wantsFin fill.endPos || c.wantsFinAck || c.cc.newAck

/-- What `PackageConnectionOnPreSendPackage` may change of the sub-state and of the congestion
control. -/
structure Prepared (c : PackageConnection) (sent : Bool) (fill : Fill)
    (closeSubState : PackageConnectionCloseSubState) (closeRecv : Bool) (cc : LedbatCc) : Prop where
  wnd : cc.wnd = c.cc.wnd
  mtu : cc.mtu = c.cc.mtu
  mss : cc.mss = c.cc.mss
  newAck : cc.newAck = ((sent || c.wantsFin fill.endPos || c.wantsFinAck) && c.cc.newAck)
  sub : closeSubState = c.closeSubState ∧ closeRecv = c.closeRecv ∨
    c.closeSubState.sendsFin = true ∧ closeSubState.sendsFin = true

variable {c : PackageConnection} {sent : Bool} {fill : Fill} {now fuel : Nat}
  {package : Bdt_SessionDataPackage}

variable {closeSubState : PackageConnectionCloseSubState} {event : ConnectionEvent}
  {closeRecv : Bool} {cc : LedbatCc}

theorem Prepared.wf
    (h : Prepared c sent fill closeSubState closeRecv cc) {config : BdtPackageConnectionConfig}
    (hcc : c.cc.Wf config) : cc.Wf config :=
  ⟨h.mtu.trans hcc.mtu_eq, h.mss.trans hcc.mss_eq, h.wnd ▸ hcc.min_le, h.wnd ▸ hcc.lt⟩

variable {d : PackageConnection}

theorem fillPayload_filled {env : PackageEnv}
    (h : c.fillPayload env now c.room = some (sent, fill, d)) :
    ∃ queue, Filled env now c sent fill queue ∧ d = { c with sendQueue := queue } := by
  unfold fillPayload at h
  split at h
  case isTrue hroom =>
    split at h
    · cases h
    case h_2 sent fill queue hfill =>
      cases h
      exact ⟨queue, .inl ⟨hroom, hfill⟩, rfl⟩
  case isFalse hroom =>
    cases h
    exact ⟨c.sendQueue, .inr ⟨hroom, rfl, rfl, rfl⟩, rfl⟩

/-- `PackageConnectionFillPackage`: the fill it makes, the package, and the ack that it takes from
the congestion control when nothing else asks for a package. -/
theorem fillPackage_filled {env : PackageEnv} {ok : Bool}
    (h : c.fillPackage env now c.room = some (ok, package, d)) :
    ∃ sent fill queue, Filled env now c sent fill queue ∧ ok = c.sends sent fill ∧
      (ok = true → Outgoing c fill package) ∧
      d = { c with
        sendQueue := queue
        cc := { c.cc with newAck :=
          (sent || c.wantsFin fill.endPos || c.wantsFinAck) && c.cc.newAck } } := by
  unfold fillPackage at h
  split at h
  · cases h
  case h_2 sent fill c' hfill =>
  obtain ⟨queue, hfilled, rfl⟩ := fillPayload_filled hfill
  refine ⟨sent, fill, queue, hfilled, ?_⟩
  have hfin : wantsFin { c with sendQueue := queue }
      (fill.streamPos + (fill.payload.getD []).length) = c.wantsFin fill.endPos := rfl
  have hfinAck : wantsFinAck { c with sendQueue := queue } = c.wantsFinAck := rfl
  simp only [hfin, hfinAck, LedbatCc.trySendAck] at h
  generalize hF : c.wantsFin fill.endPos = fin at *
  generalize hA : c.wantsFinAck = finAck at *
  have hout : ∀ package : Bdt_SessionDataPackage, package.cmdflags = fillFlags fin finAck →
      package.streamPos = fill.streamPos → package.payload = fill.payload →
      package.ackStreamPos = c.recvQueue.recvBlock.ackStreamPos → Outgoing c fill package := by
    intro package hflags hpos hpayload hack
    have hbit := fun bit => (congrArg (CmdFlags.hasFlag · bit) hflags).trans
      (hasFlag_fillFlags fin finAck bit)
    refine ⟨hpos, hpayload, hack, (hbit _).trans ?_, (hbit _).trans ?_, (hbit _).trans ?_⟩ <;>
      simp [hF, hA, SessionDataFlag.FIN, SessionDataFlag.FINACK, SessionDataFlag.SYN]
  split at h
  case isTrue hreason =>
    cases h
    exact ⟨by simp [sends, hF, hA, hreason], fun _ => hout _ rfl rfl rfl rfl, by rw [hreason]; rfl⟩
  case isFalse hreason =>
  rw [Bool.not_eq_true] at hreason
  split at h
  case isTrue hnew =>
    cases h
    exact ⟨by simp [sends, hF, hA, hreason, hnew], fun _ => hout _ rfl rfl rfl rfl,
      by rw [hreason]; rfl⟩
  case isFalse hnew =>
  cases h
  rw [Bool.not_eq_true] at hnew
  refine ⟨by simp [sends, hF, hA, hreason, hnew], by simp, ?_⟩
  rw [hreason, Bool.false_and, ← hnew]

theorem updateCloseSubStateOnSend_eq (c : PackageConnection) :
    ∃ closeSubState closeRecv closeTimer,
      c.updateCloseSubStateOnSend =
        { c with closeSubState := closeSubState, closeRecv := closeRecv, closeTimer := closeTimer } ∧
      (closeSubState = c.closeSubState ∧ closeRecv = c.closeRecv ∨
        c.closeSubState.sendsFin = true ∧ closeSubState.sendsFin = true) := by
  unfold updateCloseSubStateOnSend
  split
  case h_1 hsub => exact ⟨.fin1, c.closeRecv, .fin, rfl, .inr ⟨by rw [hsub]; rfl, rfl⟩⟩
  case h_2 hsub => exact ⟨.lastack, true, .fin, rfl, .inr ⟨by rw [hsub]; rfl, rfl⟩⟩
  case h_3 => exact ⟨c.closeSubState, c.closeRecv, c.closeTimer, rfl, .inl ⟨rfl, rfl⟩⟩

/-- `PackageConnectionOnPreSendPackage` keeps the queues, and sets only ids and times in the
package. -/
theorem onPreSendPackage_eq (env : PackageEnv) (now : Nat) (c : PackageConnection)
    (package : Bdt_SessionDataPackage) :
    ∃ closeSubState closeRecv closeTimer cc lastRecvAckTime rttEst sendTime packageIDPart,
      c.onPreSendPackage env now package =
        ({ c with
            closeSubState := closeSubState, closeRecv := closeRecv, closeTimer := closeTimer
            cc := cc, lastRecvAckTime := lastRecvAckTime, rttEst := rttEst },
          { package with
            toSessionId := env.remoteId, sessionId := env.remoteId
            sendTime := sendTime, packageIDPart := packageIDPart }) ∧
      (cc.wnd = c.cc.wnd ∧ cc.mtu = c.cc.mtu ∧ cc.mss = c.cc.mss ∧ cc.newAck = c.cc.newAck) ∧
      (closeSubState = c.closeSubState ∧ closeRecv = c.closeRecv ∨
        package.hasFlag SessionDataFlag.FIN = true ∧ c.closeSubState.sendsFin = true ∧
          closeSubState.sendsFin = true) := by
  obtain ⟨hwnd, hmtu, hmss, hnew, sendTime, packageIDPart, hsent⟩ := LedbatCc.onSend_fields c.cc now
    { package with toSessionId := env.remoteId, sessionId := env.remoteId }
  obtain ⟨sub, closeRecv, closeTimer, heq, hsub⟩ := c.updateCloseSubStateOnSend_eq
  unfold onPreSendPackage
  have hflag : ({ package with
      toSessionId := env.remoteId, sessionId := env.remoteId } : Bdt_SessionDataPackage).hasFlag
        SessionDataFlag.FIN = package.hasFlag SessionDataFlag.FIN := rfl
  simp only [hflag]
  by_cases hfin : package.hasFlag SessionDataFlag.FIN = true
  · rw [if_pos hfin, heq]
    exact ⟨_, _, _, _, _, _, _, _, by rw [hsent], ⟨hwnd, hmtu, hmss, hnew⟩, hsub.imp_right
      fun h => ⟨hfin, h⟩⟩
  · rw [if_neg hfin]
    exact ⟨_, _, _, _, _, _, _, _, by rw [hsent], ⟨hwnd, hmtu, hmss, hnew⟩, .inl ⟨rfl, rfl⟩⟩

/-- Sending a filled package: the connection afterwards, and whether the drive goes on. -/
theorem driveSend_eq (env : PackageEnv) (now payloadLength : Nat) (c : PackageConnection)
    (package : Bdt_SessionDataPackage) :
    ∃ closeSubState closeRecv closeTimer cc lastRecvAckTime rttEst sendTime packageIDPart,
      (cc.wnd = c.cc.wnd ∧ cc.mtu = c.cc.mtu ∧ cc.mss = c.cc.mss ∧ cc.newAck = c.cc.newAck) ∧
      (closeSubState = c.closeSubState ∧ closeRecv = c.closeRecv ∨
        package.hasFlag SessionDataFlag.FIN = true ∧ c.closeSubState.sendsFin = true ∧
          closeSubState.sendsFin = true) ∧
      c.driveSend env now payloadLength package =
        if c.state = .close then
          .leave (some { c with
            closeSubState := closeSubState, closeRecv := closeRecv, closeTimer := closeTimer
            cc := cc, lastRecvAckTime := lastRecvAckTime, rttEst := rttEst })
        else
          let d : PackageConnection := { c with
            closeSubState := closeSubState, closeRecv := closeRecv, closeTimer := closeTimer
            cc := cc, lastRecvAckTime := lastRecvAckTime, rttEst := rttEst
            history := c.history ++ [Record.send { package with
              toSessionId := env.remoteId, sessionId := env.remoteId
              sendTime := sendTime, packageIDPart := packageIDPart }] }
          if payloadLength = 0 ∨ c.sendQueue.pending = 0 then .leave (some d) else .again d := by
  obtain ⟨sub, closeRecv, closeTimer, cc, lastRecvAckTime, rttEst, sendTime, part, hpre, hcc, hsub⟩ :=
    onPreSendPackage_eq env now c package
  unfold driveSend
  simp only [hpre, sendPackage]
  by_cases hclose : c.state = .close
  · refine ⟨sub, closeRecv, closeTimer, cc, lastRecvAckTime, rttEst, sendTime, part, hcc, hsub, ?_⟩
    simp only [hclose, if_true]
  refine ⟨sub, closeRecv, closeTimer, cc,
    if lastRecvAckTime = 0 ∧ package.payloadLength ≠ 0 then now else lastRecvAckTime,
    rttEst, sendTime, part, hcc, hsub, ?_⟩
  simp only [hclose, if_false]
  rfl

theorem driveBody_eq (env : PackageEnv) (now : Nat) (c : PackageConnection) :
    driveBody env now c =
      match c.fillPackage env now c.room with
      | none => .leave none
      | some (false, _, c) => .leave (some c)
      | some (true, package, d) => d.driveSend env now c.room package := rfl

theorem driveBody_cases (env : PackageEnv) (now : Nat) (c : PackageConnection) :
    (c.room = env.config.mtu ∧ c.sendQueue.fillPayload now = none ∧
      driveBody env now c = .leave none) ∨
    ∃ sent fill queue, Filled env now c sent fill queue ∧
      ((c.sends sent fill = false ∧
        driveBody env now c = .leave (some { c with sendQueue := queue })) ∨
      (c.sends sent fill = true ∧
        ∃ package closeSubState closeRecv closeTimer cc lastRecvAckTime rttEst,
          Outgoing c fill package ∧ Prepared c sent fill closeSubState closeRecv cc ∧
          driveBody env now c =
            if c.state = .close then
              .leave (some { c with
                sendQueue := queue, closeSubState := closeSubState, closeRecv := closeRecv
                closeTimer := closeTimer, cc := cc, lastRecvAckTime := lastRecvAckTime
                rttEst := rttEst })
            else
              let d : PackageConnection := { c with
                sendQueue := queue, closeSubState := closeSubState, closeRecv := closeRecv
                closeTimer := closeTimer, cc := cc, lastRecvAckTime := lastRecvAckTime
                rttEst := rttEst, history := c.history ++ [Record.send package] }
              if c.room = 0 ∨ queue.pending = 0 then .leave (some d) else .again d)) := by
  cases hfp : c.fillPackage env now c.room with
  | none =>
    left
    have hroom : c.room = env.config.mtu ∧ c.sendQueue.fillPayload now = none := by
      unfold fillPackage fillPayload at hfp
      split at hfp
      case h_1 hnone =>
        split at hnone
        case isTrue hroom =>
          split at hnone
          case h_1 hfill => exact ⟨hroom, hfill⟩
          case h_2 => cases hnone
        case isFalse => cases hnone
      case h_2 =>
      simp only at hfp
      split at hfp
      · cases hfp
      · split at hfp <;> cases hfp
    refine ⟨hroom.1, hroom.2, ?_⟩
    rw [driveBody_eq, hfp]
  | some r =>
    right
    obtain ⟨ok, package, d⟩ := r
    obtain ⟨sent, fill, queue, hfilled, hok, hout, rfl⟩ := fillPackage_filled hfp
    refine ⟨sent, fill, queue, hfilled, ?_⟩
    cases hs : c.sends sent fill with
    | false =>
      left
      rw [hs] at hok
      subst hok
      refine ⟨rfl, ?_⟩
      have hnew : ((sent || c.wantsFin fill.endPos || c.wantsFinAck) && c.cc.newAck) =
          c.cc.newAck := by
        unfold sends at hs
        grind
      rw [driveBody_eq, hfp, hnew]
    | true =>
      right
      rw [hs] at hok
      subst hok
      refine ⟨rfl, ?_⟩
      obtain ⟨sub, closeRecv, closeTimer, cc, lastRecvAckTime, rttEst, sendTime, part,
        ⟨hwnd, hmtu, hmss, hnew⟩, hsub, hsend⟩ := driveSend_eq env now c.room { c with
          sendQueue := queue
          cc := { c.cc with newAck :=
            (sent || c.wantsFin fill.endPos || c.wantsFinAck) && c.cc.newAck } } package
      obtain ⟨hpos, hpayload, hack, hsyn, hfin, hfinAck⟩ := hout rfl
      refine ⟨{ package with
          toSessionId := env.remoteId, sessionId := env.remoteId
          sendTime := sendTime, packageIDPart := part },
        sub, closeRecv, closeTimer, cc, lastRecvAckTime, rttEst,
        ⟨hpos, hpayload, hack, hsyn, hfin, hfinAck⟩,
        ⟨hwnd, hmtu, hmss, hnew, hsub.imp_right And.right⟩, ?_⟩
      rw [driveBody_eq, hfp]
      exact hsend

variable {env : PackageEnv} {limits : Limits} {c d : PackageConnection}

theorem Prepared.effects (h : Prepared c sent fill closeSubState closeRecv cc) (queue : SendQueue)
    (history : List Record) (closeTimer : CloseTimer) (lastRecvAckTime : Nat) (rttEst : RttEst) :
    ReflTransGen (Effect env limits) { c with sendQueue := queue, history := history }
      { c with
        sendQueue := queue, closeSubState := closeSubState, closeRecv := closeRecv
        closeTimer := closeTimer, cc := cc, lastRecvAckTime := lastRecvAckTime
        rttEst := rttEst, history := history } := by
  rcases h.sub with ⟨rfl, rfl⟩ | ⟨_, hfin⟩
  · exact .single (.note { c with sendQueue := queue, history := history } cc closeTimer c.rto
      lastRecvAckTime c.rtoTimer c.recvTimer c.lastLostStateTime rttEst fun _ hcc => h.wf hcc)
  refine .head (.subState _ closeSubState closeRecv c.closeSend ?_) (.single (.note
    { c with sendQueue := queue, history := history, closeSubState := closeSubState
             closeRecv := closeRecv }
    cc closeTimer c.rto lastRecvAckTime c.rtoTimer c.recvTimer c.lastLostStateTime rttEst
    fun _ hcc => h.wf hcc))
  rintro rfl
  cases hfin

theorem driveBody_effects
    (h : driveBody env now c = .again d ∨ driveBody env now c = .leave (some d)) :
    ReflTransGen (Effect env limits) c d := by
  rcases driveBody_cases env now c with
    ⟨_, _, hnone⟩ | ⟨sent, fill, queue, hfill, ⟨hsends, hstop⟩ |
      ⟨_, package, sub, closeRecv, closeTimer, cc, lastRecvAckTime, rttEst, hout, hprep, hsend⟩⟩
  · rw [hnone] at h
    simp at h
  · rw [hstop] at h
    simp only [reduceCtorEq, Flow.leave.injEq, some.injEq, false_or] at h
    have hsent : sent = false := by
      cases sent with
      | false => rfl
      | true => simp [sends] at hsends
    exact h ▸ .single (.fill c now sent fill queue hfill (.inl hsent))
  rw [hsend] at h
  by_cases hclose : c.state = .close
  · rw [if_pos hclose] at h
    simp only [reduceCtorEq, Flow.leave.injEq, some.injEq, false_or] at h
    rw [← h]
    exact .head (.fill c now sent fill queue hfill (.inr hclose))
      (hprep.effects queue c.history closeTimer lastRecvAckTime rttEst)
  rw [if_neg hclose] at h
  have hd : d = { c with
      sendQueue := queue, closeSubState := sub, closeRecv := closeRecv
      closeTimer := closeTimer, cc := cc, lastRecvAckTime := lastRecvAckTime
      rttEst := rttEst, history := c.history ++ [Record.send package] } := by
    split at h <;> simp at h <;> exact h.symm
  rw [hd]
  exact .head (.transmit c now sent fill queue package hfill hout hclose)
    (hprep.effects queue _ closeTimer lastRecvAckTime rttEst)

theorem sendDrive_effects (h : c.sendDrive env fuel now = some d) :
    ReflTransGen (Effect env limits) c d := by
  unfold sendDrive at h
  obtain ⟨r, hr, rfl⟩ : ∃ r, runLoop (driveBody env now) fuel c = some r ∧ r = some d := by
    simpa [join_eq_some_iff] using h
  exact runLoop_result (ReflTransGen (Effect env limits) c)
    (fun r => ∀ e, r = some e → ReflTransGen (Effect env limits) c e)
    (fun s t hs ht => hs.trans (driveBody_effects (.inl ht)))
    (fun s r hs hl e he => hs.trans (driveBody_effects (.inr (he ▸ hl))))
    .refl hr d rfl

/-- A fill changes neither the end of the stream nor the largest ack. -/
theorem Filled.fields {queue : SendQueue} (h : Filled env now c sent fill queue) :
    queue.sendingBuffers.streamPos = c.sendQueue.sendingBuffers.streamPos ∧
    queue.sendContext.ackStreamPos = c.sendQueue.sendContext.ackStreamPos ∧
    queue.mtu = c.sendQueue.mtu := by
  rcases h with ⟨_, h⟩ | ⟨_, _, _, rfl⟩
  · unfold SendQueue.fillPayload at h
    split at h
    · have hgen : ∀ {block : Option SendQueueSendBlock} {buffers : SendingBuffers},
          c.sendQueue.sendingBuffers.generateBlock c.sendQueue.mtu = some (block, buffers) →
          buffers.streamPos = c.sendQueue.sendingBuffers.streamPos := by
        intro block buffers hgen
        unfold SendingBuffers.generateBlock at hgen
        split at hgen
        · cases hgen
          rfl
        split at hgen
        · cases hgen
        · split at hgen <;> cases hgen
          rfl
      split at h <;> cases h
      case h_2 hsome => exact ⟨hgen hsome, rfl, rfl⟩
      case h_3 hnone => exact ⟨hgen hnone, rfl, rfl⟩
    · cases h
      exact ⟨rfl, rfl, rfl⟩
  · exact ⟨rfl, rfl, rfl⟩

/-- What the send drive leaves alone. -/
structure Driven (c d : PackageConnection) : Prop where
  state : d.state = c.state
  recvQueue : d.recvQueue = c.recvQueue
  recvReadyQueue : d.recvReadyQueue = c.recvReadyQueue
  remoteCloseStreamPos : d.remoteCloseStreamPos = c.remoteCloseStreamPos
  selfCloseStreamPos : d.selfCloseStreamPos = c.selfCloseStreamPos
  streamPos : d.sendQueue.sendingBuffers.streamPos = c.sendQueue.sendingBuffers.streamPos
  history : ∃ packages : List Bdt_SessionDataPackage,
    d.history = c.history ++ packages.map Record.send

theorem Driven.refl (c : PackageConnection) : Driven c c :=
  ⟨rfl, rfl, rfl, rfl, rfl, rfl, [], (append_nil _).symm⟩

theorem Driven.trans {b : PackageConnection} (h : Driven b c) (h' : Driven c d) : Driven b d :=
  ⟨h'.state.trans h.state, h'.recvQueue.trans h.recvQueue,
    h'.recvReadyQueue.trans h.recvReadyQueue,
    h'.remoteCloseStreamPos.trans h.remoteCloseStreamPos,
    h'.selfCloseStreamPos.trans h.selfCloseStreamPos, h'.streamPos.trans h.streamPos, by
      obtain ⟨front, hfront⟩ := h.history
      obtain ⟨back, hback⟩ := h'.history
      exact ⟨front ++ back, by rw [hback, hfront, map_append, append_assoc]⟩⟩

theorem driveBody_driven
    (h : driveBody env now c = .again d ∨ driveBody env now c = .leave (some d)) : Driven c d := by
  rcases driveBody_cases env now c with
    ⟨_, _, hnone⟩ | ⟨sent, fill, queue, hfill, ⟨_, hstop⟩ |
      ⟨_, package, sub, closeRecv, closeTimer, cc, lastRecvAckTime, rttEst, _, _, hsend⟩⟩
  · rw [hnone] at h
    simp at h
  · rw [hstop] at h
    simp only [reduceCtorEq, Flow.leave.injEq, some.injEq, false_or] at h
    exact h ▸ ⟨rfl, rfl, rfl, rfl, rfl, hfill.fields.1, [], (append_nil _).symm⟩
  rw [hsend] at h
  split at h
  · simp only [reduceCtorEq, Flow.leave.injEq, some.injEq, false_or] at h
    exact h ▸ ⟨rfl, rfl, rfl, rfl, rfl, hfill.fields.1, [], (append_nil _).symm⟩
  · split at h <;> simp at h <;>
      exact h ▸ ⟨rfl, rfl, rfl, rfl, rfl, hfill.fields.1, [package], rfl⟩

theorem sendDrive_driven (h : c.sendDrive env fuel now = some d) : Driven c d := by
  unfold sendDrive at h
  obtain ⟨r, hr, rfl⟩ : ∃ r, runLoop (driveBody env now) fuel c = some r ∧ r = some d := by
    simpa [join_eq_some_iff] using h
  exact runLoop_result (Driven c) (fun r => ∀ e, r = some e → Driven c e)
    (fun s t hs ht => hs.trans (driveBody_driven (.inl ht)))
    (fun s r hs hl e he => hs.trans (driveBody_driven (.inr (he ▸ hl))))
    (Driven.refl c) hr d rfl

/-! ## The history grows -/

theorem notifyRecvReadyBuffers_history (c : PackageConnection)
    (buffers : List RecvQueueRecvBuffer) :
    c.history <+: (c.notifyRecvReadyBuffers buffers).history := by
  unfold notifyRecvReadyBuffers
  split
  · exact prefix_refl _
  · exact prefix_append _ _

theorem maybeCloseFinish_history (c : PackageConnection) :
    c.history <+: c.maybeCloseFinish.history := by
  unfold maybeCloseFinish
  split
  · simp only [append_assoc]
    exact prefix_append _ _
  · exact prefix_refl _

/-- A handler never takes anything back from the history. -/
theorem Effect.history (h : Effect env limits c d) : c.history <+: d.history := by
  cases h with
  | note | subState | fill | beginClose | confirm | timeout => exact prefix_refl _
  | transmit | accept | receive => exact prefix_append _ _
  | reset hstate =>
    unfold PackageConnection.reset
    rw [if_pos hstate]
    refine List.IsPrefix.trans ?_ (maybeCloseFinish_history _)
    exact prefix_append _ _
  | closed =>
    refine List.IsPrefix.trans ?_ (maybeCloseFinish_history _)
    exact prefix_refl _
  | complete => exact prefix_append _ _
  | write =>
    unfold writePackage
    split <;> split <;> exact prefix_refl _
  | deliver =>
    unfold PackageConnection.deliver
    simp only
    split
    · exact prefix_refl _
    · refine List.IsPrefix.trans ?_ (notifyRecvReadyBuffers_history _ _)
      exact prefix_refl _
  | addRecv =>
    unfold recv
    split <;> exact prefix_refl _

theorem effects_history (h : ReflTransGen (Effect env limits) c d) : c.history <+: d.history :=
  reflTransGen_preserves (fun e => c.history <+: e.history)
    (fun _ _ hs ht => hs.trans (Effect.history ht)) h (prefix_refl _)

/-! ## The handlers -/

theorem beginPush_effects (hnet : limits.net c package) :
    ReflTransGen (Effect env limits) c (c.beginPush now package) :=
  .head (.receive c package hnet)
    (.single (.note { c with history := c.history ++ [Record.receive package] } c.cc c.closeTimer
      _ now c.rtoTimer c.recvTimer c.lastLostStateTime _ fun _ hcc => hcc))

theorem close_effects (h : c.close env fuel now = some d) :
    ReflTransGen (Effect env limits) c d := by
  unfold close at h
  split at h
  case isFalse => exact some.inj h ▸ .refl
  case isTrue hstate =>
  refine .head (.beginClose c hstate) ?_
  simp only at h
  split at h
  · exact sendDrive_effects h
  · exact some.inj h ▸ .refl

/-- The places where a handler may close a connection gracefully. -/
inductive ClosePoint (env : PackageEnv) (fuel now : Nat) (c : PackageConnection) :
    ConnectionEvent → PackageConnection → Prop
  | timewait : ClosePoint env fuel now c .timewaitTimer c
  | finAck (package : Bdt_SessionDataPackage) (d : PackageConnection)
      (hsyn : package.hasFlag SessionDataFlag.SYN = false)
      (hfinAck : package.hasFlag SessionDataFlag.FINACK = true)
      (hfin : if package.hasFlag SessionDataFlag.FIN then
          (c.beginPush now package).onRecvFin env fuel now = some d
        else d = c.beginPush now package)
      (hsub : d.closeSubState = .lastack) : ClosePoint env fuel now c (.push package) d

/-- A graceful close finds the connection as it was before the event, or it has just sent its `FIN`
on the `FIN` and `FINACK` of one package, when all the bytes it sent were acknowledged. -/
theorem ClosePoint.before (h : ClosePoint env fuel now c event d) :
    (event = .timewaitTimer ∧ d = c) ∨
    ∃ package, event = .push package ∧ package.hasFlag SessionDataFlag.SYN = false ∧
      package.hasFlag SessionDataFlag.FINACK = true ∧
      (c.closeSubState = .lastack ∧ d = c.beginPush now package ∨
      c.closeSubState = .none ∧ c.state = .establish ∧ package.hasFlag SessionDataFlag.FIN = true ∧
        c.sendQueue.sendingBuffers.streamPos = c.sendQueue.sendContext.ackStreamPos ∧
        ({ c.beginPush now package with
          closeSubState := .waitclose, state := .closing
          selfCloseStreamPos := c.sendQueue.sendingBuffers.streamPos }).sendDrive env fuel now =
            some d) := by
  cases h with
  | timewait => exact .inl ⟨rfl, rfl⟩
  | finAck package _ hsyn hfinAck hfin hsub =>
    refine .inr ⟨package, rfl, hsyn, hfinAck, ?_⟩
    split at hfin
    case isFalse =>
      subst hfin
      exact .inl ⟨hsub, rfl⟩
    case isTrue hflag =>
    unfold onRecvFin at hfin
    split at hfin
    case h_1 hnone =>
      right
      simp only at hfin
      split at hfin
      · cases hfin
        cases hsub
      unfold PackageConnection.close at hfin
      split at hfin
      case isTrue hstate =>
        simp only at hfin
        split at hfin
        case isTrue hacked => exact ⟨hnone, hstate, hflag, of_decide_eq_true hacked, hfin⟩
        case isFalse =>
          cases hfin
          cases hsub
      case isFalse =>
        cases hfin
        cases hsub
    · cases hfin
      cases hsub
    · cases hfin
      cases hsub
    · cases hfin
      exact .inl ⟨hsub, rfl⟩

theorem onRecvFin_effects (h : c.onRecvFin env fuel now = some d) :
    ReflTransGen (Effect env limits) c d := by
  have hsub : ∀ sub : PackageConnectionCloseSubState, sub ≠ .closed →
      ReflTransGen (Effect env limits) c { c with closeSubState := sub } :=
    fun sub hsub => .single (.subState c sub c.closeRecv c.closeSend hsub)
  unfold onRecvFin at h
  split at h
  · simp only at h
    split at h
    · exact some.inj h ▸ hsub _ (by simp)
    · exact (hsub _ (by simp)).trans (close_effects h)
  · exact some.inj h ▸ hsub _ (by simp)
  · rw [← some.inj h]
    exact (hsub .timewait (by simp)).tail (.note { c with closeSubState := .timewait } c.cc .timewait
      c.rto c.lastRecvAckTime c.rtoTimer c.recvTimer c.lastLostStateTime c.rttEst fun _ hcc => hcc)
  · exact some.inj h ▸ .refl

theorem onRecvFinAck_effects (hlimit : c.closeSubState = .lastack → limits.graceful c) :
    ReflTransGen (Effect env limits) c c.onRecvFinAck := by
  have hsub : ∀ (sub : PackageConnectionCloseSubState) (timer : CloseTimer), sub ≠ .closed →
      ReflTransGen (Effect env limits) c
        { c with closeSubState := sub, closeSend := true, closeTimer := timer } :=
    fun sub timer hsub => .head (.subState c sub c.closeRecv true hsub)
      (.single (.note { c with closeSubState := sub, closeSend := true } c.cc timer c.rto
        c.lastRecvAckTime c.rtoTimer c.recvTimer c.lastLostStateTime c.rttEst fun _ hcc => hcc))
  unfold onRecvFinAck
  split
  · exact hsub _ _ (by simp)
  · exact hsub _ _ (by simp)
  case h_3 hlast => exact .single (.closed c c.closeRecv true .idle (hlimit hlast))
  · exact .refl

theorem cc_effects (c : PackageConnection) (cc : LedbatCc)
    (hcc : ∀ config, c.cc.Wf config → cc.Wf config) :
    ReflTransGen (Effect env limits) c { c with cc := cc } :=
  .single (.note c cc c.closeTimer c.rto c.lastRecvAckTime c.rtoTimer c.recvTimer
    c.lastLostStateTime c.rttEst hcc)

theorem onData_wf (cc : LedbatCc) (package : Option Bdt_SessionDataPackage)
    (type : RecvPackageType) (config : BdtPackageConnectionConfig) (h : cc.Wf config) :
    (cc.onData package type).2.Wf config := by
  obtain ⟨hwnd, hmtu, hmss⟩ := LedbatCc.onData_fields cc package type
  exact ⟨hmtu.trans h.mtu_eq, hmss.trans h.mss_eq, hwnd ▸ h.min_le, hwnd ▸ h.lt⟩

theorem updateCloseSubStateOnRecv_effects {cmdflags : CmdFlags}
    (h : c.updateCloseSubStateOnRecv env fuel now cmdflags = some d)
    (hlimit : ∀ e, (if cmdflags.hasFlag SessionDataFlag.FIN then
      c.onRecvFin env fuel now = some e else e = c) →
      cmdflags.hasFlag SessionDataFlag.FINACK = true → e.closeSubState = .lastack →
      limits.graceful e) :
    ReflTransGen (Effect env limits) c d := by
  obtain ⟨e, he, hd⟩ := bind_eq_some_iff.mp h
  have hfin : ReflTransGen (Effect env limits) c e := by
    split at he
    · exact onRecvFin_effects he
    · exact some.inj he ▸ .refl
  have hpoint : if cmdflags.hasFlag SessionDataFlag.FIN then
      c.onRecvFin env fuel now = some e else e = c := by
    split at he
    case isTrue hflag => rw [if_pos hflag]; exact he
    case isFalse hflag => rw [if_neg hflag]; exact (some.inj he).symm
  rw [← some.inj hd]
  split
  case isTrue hflag => exact hfin.trans (onRecvFinAck_effects fun hsub => hlimit e hpoint hflag hsub)
  case isFalse => exact hfin

theorem pushAck_effects
    (hrec : .receive package ∈ c.history) (h : c.pushAck env fuel now package = some d) :
    ReflTransGen (Effect env limits) c d := by
  have hconfirm : ReflTransGen (Effect env limits) c _ := .single (.confirm c package hrec)
  unfold pushAck at h
  simp only at h
  split at h
  · exact some.inj h ▸ hconfirm
  obtain ⟨cc, hcc, h⟩ := bind_eq_some_iff.mp h
  obtain ⟨e, he, h⟩ := bind_eq_some_iff.mp h
  rw [← some.inj h]
  have hnote := hconfirm.trans (cc_effects { c with
    sendQueue := (c.sendQueue.confirmRange package.ackStreamPos package.sackArray).1 } cc
    fun config hwf => (hwf.onAck hcc).1)
  exact (hnote.trans (sendDrive_effects he)).tail (.complete e)

theorem pushData_effects
    (hrec : .receive package ∈ c.history) (h : c.pushData env fuel now package = some d) :
    ReflTransGen (Effect env limits) c d := by
  have hwrite : ReflTransGen (Effect env limits) c (c.writePackage package).2 :=
    .single (.write c package hrec)
  unfold pushData at h
  simp only at h
  split at h
  · exact some.inj h ▸ hwrite
  obtain ⟨e, he, h⟩ := bind_eq_some_iff.mp h
  have hdata := hwrite.trans (cc_effects (c.writePackage package).2
    ((c.writePackage package).2.cc.onData (some package) (c.writePackage package).1).2
    (onData_wf _ _ _))
  have hdrive : ReflTransGen (Effect env limits) c e := by
    split at he
    · exact hdata.trans (sendDrive_effects he)
    · exact some.inj he ▸ hdata
  split at h
  · rw [← some.inj h]
    exact (hdrive.tail (.note e e.cc e.closeTimer e.rto e.lastRecvAckTime e.rtoTimer true
      e.lastLostStateTime e.rttEst fun _ hcc => hcc)).tail (.deliver _ _)
  · exact some.inj h ▸ hdrive

theorem pushPackage_effects (h : c.pushPackage env fuel now package = some d)
    (hnet : package.hasFlag SessionDataFlag.SYN = false → limits.net c package)
    (hgraceful : ∀ e, ClosePoint env fuel now c (.push package) e → limits.graceful e) :
    ReflTransGen (Effect env limits) c d := by
  unfold pushPackage at h
  split at h
  case isTrue =>
    split at h
    · exact (cc_effects c _ (onData_wf _ _ _)).trans (sendDrive_effects h)
    · exact some.inj h ▸ .refl
  case isFalse hsyn =>
  rw [Bool.not_eq_true] at hsyn
  obtain ⟨e, he, h⟩ := bind_eq_some_iff.mp h
  obtain ⟨f, hf, h⟩ := bind_eq_some_iff.mp h
  have hbegin : ReflTransGen (Effect env limits) c (c.beginPush now package) :=
    beginPush_effects (hnet hsyn)
  have hsub : ReflTransGen (Effect env limits) (c.beginPush now package) e :=
    updateCloseSubStateOnRecv_effects he fun e' hfin hfinAck hlast =>
      hgraceful e' (.finAck package e' hsyn hfinAck hfin hlast)
  have hrec : .receive package ∈ (c.beginPush now package).history := by
    simp [beginPush, estimateRtt]
  have hrece : .receive package ∈ e.history := (effects_history hsub).subset hrec
  have hack : ReflTransGen (Effect env limits) e f := pushAck_effects hrece hf
  exact ((hbegin.trans hsub).trans hack).trans
    (pushData_effects ((effects_history hack).subset hrece) h)

theorem rtoTimerCallback_effects (h : c.rtoTimerCallback env fuel now = some d) :
    ReflTransGen (Effect env limits) c d := by
  have hnote : ∀ (e : PackageConnection) (cc : LedbatCc) (lastRecvAckTime : Nat) (rtoTimer : Bool)
      (lastLostStateTime : Nat), (∀ config, e.cc.Wf config → cc.Wf config) →
      ReflTransGen (Effect env limits) e { e with
        cc := cc, lastRecvAckTime := lastRecvAckTime, rtoTimer := rtoTimer
        lastLostStateTime := lastLostStateTime } :=
    fun e cc lastRecvAckTime rtoTimer lastLostStateTime hcc =>
      .single (.note e cc e.closeTimer e.rto lastRecvAckTime rtoTimer e.recvTimer
        lastLostStateTime e.rttEst hcc)
  have htimeout : ReflTransGen (Effect env limits) c _ := .single (.timeout c c.rto now)
  unfold rtoTimerCallback at h
  split at h
  · rw [← some.inj h]
    exact hnote c c.cc c.lastRecvAckTime false c.lastLostStateTime fun _ hcc => hcc
  split at h
  · simp only at h
    split at h
    · obtain ⟨e, he, h⟩ := bind_eq_some_iff.mp h
      have hdrive := htimeout.trans (sendDrive_effects he)
      split at h <;> rw [← some.inj h]
      · exact hdrive.trans (hnote e (e.cc.onChangeState .lost) e.lastRecvAckTime true now
          fun _ hcc => (hcc.onChangeState .lost).1)
      · exact hdrive.trans (hnote e e.cc e.lastRecvAckTime true e.lastLostStateTime
          fun _ hcc => hcc)
    · rw [← some.inj h]
      exact htimeout.trans (hnote _ c.cc c.lastRecvAckTime true c.lastLostStateTime
        fun _ hcc => hcc)
  · rw [← some.inj h]
    exact hnote c c.cc 0 true c.lastLostStateTime fun _ hcc => hcc

theorem handle_effects (h : c.handle env fuel now event = some d)
    (hnet : ∀ package, event = .push package → package.hasFlag SessionDataFlag.SYN = false →
      limits.net c package) (hgraceful : ∀ e, ClosePoint env fuel now c event e → limits.graceful e)
    (hreset : event = .reset → c.state = .establish → limits.reset c) :
    ReflTransGen (Effect env limits) c d := by
  cases event with
  | send data userData =>
    simp only [handle, send] at h
    split at h
    case isTrue hstate =>
      split at h
      · exact some.inj h ▸ .refl
      case h_2 queue hadd =>
        have haccept : Effect env limits c _ := .accept c data userData queue hstate hadd
        split at h
        · exact some.inj h ▸ .single haccept
        · exact .head haccept (sendDrive_effects h)
    case isFalse => exact some.inj h ▸ .refl
  | recv address data userData =>
    exact some.inj h ▸ .single (.addRecv c address data userData)
  | close => exact close_effects h
  | reset =>
    rw [← some.inj h]
    by_cases hstate : c.state = .establish
    · exact .single (.reset c hstate (hreset rfl hstate))
    · unfold PackageConnection.reset
      rw [if_neg hstate]
  | push package => exact pushPackage_effects h (hnet package rfl) hgraceful
  | rtoTimer =>
    simp only [handle] at h
    split at h
    · exact rtoTimerCallback_effects h
    · cases h
  | recvTimer =>
    simp only [handle] at h
    split at h
    · rw [← some.inj h]
      unfold recvTimerCallback
      have hnote : ReflTransGen (Effect env limits) c { c with recvTimer := false } :=
        .single (.note c c.cc c.closeTimer c.rto c.lastRecvAckTime c.rtoTimer false
          c.lastLostStateTime c.rttEst fun _ hcc => hcc)
      simp only
      split
      · exact hnote
      · exact hnote.tail (.deliver _ true)
    · cases h
  | finTimer =>
    simp only [handle] at h
    have htimer : ∀ (e : PackageConnection) (timer : CloseTimer),
        ReflTransGen (Effect env limits) e { e with closeTimer := timer } :=
      fun e timer => .single (.note e e.cc timer e.rto e.lastRecvAckTime e.rtoTimer e.recvTimer
        e.lastLostStateTime e.rttEst fun _ hcc => hcc)
    split at h
    · unfold finTimerCallback at h
      simp only at h
      split at h
      · exact some.inj h ▸ htimer c .idle
      · obtain ⟨e, he, h⟩ := bind_eq_some_iff.mp h
        rw [← some.inj h]
        exact ((htimer c .idle).trans (sendDrive_effects he)).trans (htimer e .fin)
    · cases h
  | timewaitTimer =>
    simp only [handle] at h
    split at h
    · rw [← some.inj h]
      exact .single (.closed c true c.closeSend .idle (hgraceful c .timewait))
    · cases h

end PackageConnection

end Bdt
