import Bdt.Base.Loop
import Bdt.Connection.LedbatCc
import Bdt.Connection.RttEstimate
import Bdt.Connection.SendQueue

/-!
# The package connection

A model of `PackageConnection.imp.inl`: the handlers of a connection, as functions on its state.
Handlers run one after the other, so `trySendCnt` is zero whenever a handler asks for the send drive
and `PackageConnectionTrySendPackage` is one `PackageConnectionSendDrive`. All clock readings of a
handler give the same time `now`. Timers are modelled by what they are armed for.

The send drive is a loop, executed with a bound `fuel`. A handler gives `none` when the bound is too
small, or when the code does something undefined. `history` is not in the source: it records what
the connection took from and handed to its environment.
-/

namespace Bdt

open Base

def PACKAGE_CONNECTION_INIT_STREAM_POS : Nat := 1

/-- `PackageConnectionState`; a connection is created in `ESTABLISH`. -/
inductive PackageConnectionState where
  | establish
  | closing
  | close
  deriving DecidableEq, Repr

/-- `PackageConnectionCloseSubState`. -/
inductive PackageConnectionCloseSubState where
  | none
  | fin1
  | fin2
  | closing
  | timewait
  | waitclose
  | lastack
  | closed
  deriving DecidableEq, Repr

/-- The sub-states in which `PackageConnectionFillPackage` adds a `FIN`. -/
def PackageConnectionCloseSubState.sendsFin : PackageConnectionCloseSubState → Bool
  | .none => true
  | .fin1 => true
  | .closing => true
  | .waitclose => true
  | .lastack => true
  | _ => false

/-- What `closeTimer` is armed for. -/
inductive CloseTimer where
  | idle
  | fin
  | timewait
  deriving DecidableEq, Repr

/-- An exchange of the connection with its environment. -/
inductive Record where
  /-- `PackageConnectionSend` took a buffer. -/
  | accept (data : List UInt8) (userData : Nat)
  /-- `PackageConnectionPushPackage` got a package without `SYN`. -/
  | receive (package : Bdt_SessionDataPackage)
  /-- `BdtTunnel_Send` got a package. -/
  | send (package : Bdt_SessionDataPackage)
  /-- A send callback with `BFX_RESULT_SUCCESS` and this length. -/
  | sendComplete (buffer : SendQueueSendBuffer) (length : Nat)
  /-- A recv callback with these bytes. -/
  | recv (data : List UInt8) (userData : Nat)
  /-- `PackageConnectionReset` closed the connection. -/
  | reset
  deriving DecidableEq, Repr

/-- `recvReadyQueue`. -/
structure RecvReadyQueue where
  buffers : List RecvQueueRecvBuffer := []
  streamPos : Nat
  onNotifying : Bool := false
  deriving DecidableEq, Repr

/-- `PackageConnection`. The two bits of `flags` that the code uses are `closeRecv` and
`closeSend`. -/
structure PackageConnection where
  state : PackageConnectionState := .establish
  closeSubState : PackageConnectionCloseSubState := .none
  closeRecv : Bool := false
  closeSend : Bool := false
  sendQueue : SendQueue
  recvQueue : RecvQueue
  cc : LedbatCc
  closeTimer : CloseTimer := .idle
  rto : Nat := PACKAGE_CONNECTION_INIT_RTO
  lastRecvAckTime : Nat := 0
  rtoTimer : Bool := true
  recvTimer : Bool := false
  remoteCloseStreamPos : Nat := 0
  selfCloseStreamPos : Nat := 0
  lastLostStateTime : Nat := 0
  recvReadyQueue : RecvReadyQueue
  rttEst : RttEst := {}
  history : List Record := []
  deriving DecidableEq, Repr

namespace PackageConnection

/-- `PackageConnectionCreate`. -/
def create (env : PackageEnv) : PackageConnection where
  sendQueue := SendQueue.create PACKAGE_CONNECTION_INIT_STREAM_POS env.config
  recvQueue := RecvQueue.create PACKAGE_CONNECTION_INIT_STREAM_POS
  cc := LedbatCc.new env.config.mtu env.config.mss
  recvReadyQueue := { streamPos := PACKAGE_CONNECTION_INIT_STREAM_POS }

/-! ## Sending packages -/

variable (env : PackageEnv) (c : PackageConnection)

/-- `PackageConnectionUpdateCloseSubState` for a package with `FIN` that is about to be sent. -/
def updateCloseSubStateOnSend : PackageConnection :=
  match c.closeSubState with
  | .none => { c with closeSubState := .fin1, closeTimer := .fin }
  | .waitclose => { c with closeSubState := .lastack, closeRecv := true, closeTimer := .fin }
  | _ => c

/-- `PackageConnectionOnPreSendPackage`. -/
def onPreSendPackage (now : Nat) (c : PackageConnection)
    (package : Bdt_SessionDataPackage) : PackageConnection × Bdt_SessionDataPackage :=
  let package := { package with toSessionId := env.remoteId, sessionId := env.remoteId }
  let c := if package.hasFlag SessionDataFlag.FIN then c.updateCloseSubStateOnSend else c
  let (cc, sent) := c.cc.onSend now package
  ({ c with
    cc := cc
    lastRecvAckTime :=
      if c.lastRecvAckTime = 0 ∧ package.payloadLength ≠ 0 then now else c.lastRecvAckTime
    rttEst :=
      if package.payloadLength ≠ 0 then
        c.rttEst.onPreSend now (package.streamPos + package.payloadLength)
      else c.rttEst }, sent)

/-- `PackageConnectionSendPackage`; the flag is false for `BFX_RESULT_INVALID_STATE`. -/
def sendPackage (now : Nat) (c : PackageConnection) (package : Bdt_SessionDataPackage) :
    Bool × PackageConnection :=
  if c.state = .close then (false, c)
  else
    (true, { c with
      history := c.history ++ [.send package]
      lastRecvAckTime :=
        if c.lastRecvAckTime = 0 ∧ package.payloadLength ≠ 0 then now else c.lastRecvAckTime })

/-- The test of `PackageConnectionFillPackage` for a `FIN` on a package that ends at `endPos`. -/
def wantsFin (endPos : Nat) : Bool :=
  c.state = .closing ∧ c.selfCloseStreamPos ≤ endPos ∧ c.closeSubState.sendsFin

/-- The test of `PackageConnectionFillPackage` for a `FINACK`. -/
def wantsFinAck : Bool :=
  c.remoteCloseStreamPos = c.recvQueue.getAckInfo.1

/-- The first part of `PackageConnectionFillPackage`: the payload. -/
def fillPayload (env : PackageEnv) (now : Nat) (c : PackageConnection) (payloadLength : Nat) :
    Option (Bool × Fill × PackageConnection) :=
  if payloadLength = env.config.mtu then
    match c.sendQueue.fillPayload now with
    | none => none
    | some (sent, fill, sendQueue) => some (sent, fill, { c with sendQueue := sendQueue })
  else some (false, { streamPos := c.sendQueue.fillPayloadFromNew, payload := none }, c)

/-- The flags that `PackageConnectionFillPackage` sets. -/
def fillFlags (fin finAck : Bool) : CmdFlags :=
  let flags : CmdFlags := 0#16
  let flags := if fin then flags.setFlag SessionDataFlag.FIN else flags
  if finAck then flags.setFlag SessionDataFlag.FINACK else flags

theorem hasFlag_fillFlags (fin finAck : Bool) (bit : Nat) :
    (fillFlags fin finAck).hasFlag bit =
      (fin && decide (bit = SessionDataFlag.FIN) ||
        finAck && decide (bit = SessionDataFlag.FINACK)) := by
  cases fin <;> cases finAck <;>
    simp [fillFlags, SessionDataFlag.FIN, SessionDataFlag.FINACK] <;> grind

/-- `PackageConnectionFillPackage`. The flag is false for `BFX_RESULT_NOT_CHANGED`. -/
def fillPackage (now : Nat) (c : PackageConnection) (payloadLength : Nat) :
    Option (Bool × Bdt_SessionDataPackage × PackageConnection) :=
  match c.fillPayload env now payloadLength with
  | none => none
  | some (sent, fill, c) =>
    let fin := c.wantsFin (fill.streamPos + (fill.payload.getD []).length)
    let finAck := c.wantsFinAck
    let package : Bdt_SessionDataPackage :=
      { cmdflags := fillFlags fin finAck, streamPos := fill.streamPos, payload := fill.payload }
    let (ackStreamPos, sackArray) := c.recvQueue.getAckInfo
    if sent || fin || finAck then
      some (true, { package with ackStreamPos := ackStreamPos, sackArray := sackArray }, c)
    else
      let (ack, cc) := c.cc.trySendAck
      if ack then
        some (true, { package with ackStreamPos := ackStreamPos, sackArray := sackArray },
          { c with cc := cc })
      else some (false, package, c)

/-- The part of the loop of `PackageConnectionSendDrive` after a package is filled: send it, and go
round again while there is room and something to send. -/
def driveSend (now payloadLength : Nat) (c : PackageConnection)
    (package : Bdt_SessionDataPackage) : Flow PackageConnection (Option PackageConnection) :=
  let (c, package) := c.onPreSendPackage env now package
  match c.sendPackage now package with
  | (false, c) => .leave (some c)
  | (true, c) =>
    if payloadLength = 0 ∨ c.sendQueue.getUnsendSize + c.sendQueue.getLostSize = 0 then
      .leave (some c)
    else .again c

/-- The body of the loop of `PackageConnectionSendDrive`. It leaves with `none` when filling the
package is undefined. -/
def driveBody (now : Nat) (c : PackageConnection) :
    Flow PackageConnection (Option PackageConnection) :=
  let payloadLength := c.cc.trySendPayload c.sendQueue.getFilght
  match c.fillPackage env now payloadLength with
  | none => .leave none
  | some (false, _, c) => .leave (some c)
  | some (true, package, c) => c.driveSend env now payloadLength package

/-- `PackageConnectionSendDrive`. -/
def sendDrive (fuel now : Nat) (c : PackageConnection) : Option PackageConnection :=
  (runLoop (driveBody env now) fuel c).join

/-- `PackageConnectionTrySendPackage`. -/
def trySendPackage (fuel now : Nat) (c : PackageConnection) : Option PackageConnection :=
  c.sendDrive env fuel now

/-- `PackageConnectionSendAckAck`. -/
def sendAckAck (fuel now : Nat) (c : PackageConnection) : Option PackageConnection :=
  ({ c with cc := (c.cc.onData none .inOrder).2 }).trySendPackage env fuel now

/-! ## Callbacks -/

/-- The place of `PackageConnectionNotifyRecvReadyBuffers` for the new buffers: behind the last
ready buffer that ends at or before them. -/
def mergeReady (ready buffers : List RecvQueueRecvBuffer) : List RecvQueueRecvBuffer :=
  match buffers with
  | [] => ready
  | bufferSrc :: _ =>
    let later := (ready.reverse.takeWhile fun b => bufferSrc.startStreamPos < b.endStreamPos).reverse
    ready.take (ready.length - later.length) ++ buffers ++ later

/-- The notification loop: the buffers handed out, the rest, and the new stream position. -/
def notifyLoop : Nat → List RecvQueueRecvBuffer →
    List RecvQueueRecvBuffer × List RecvQueueRecvBuffer × Nat
  | streamPos, [] => ([], [], streamPos)
  | streamPos, buffer :: rest =>
    if buffer.startStreamPos = streamPos then
      let (notified, rest, streamPos) := notifyLoop buffer.endStreamPos rest
      (buffer :: notified, rest, streamPos)
    else ([], buffer :: rest, streamPos)

/-- The recv callback of a buffer: the bytes from its start to its end position. -/
def recvRecord (buffer : RecvQueueRecvBuffer) : Record :=
  .recv (buffer.data.take (buffer.endStreamPos - buffer.startStreamPos)) buffer.userData

/-- `PackageConnectionNotifyRecvReadyBuffers`. -/
def notifyRecvReadyBuffers (buffers : List RecvQueueRecvBuffer) : PackageConnection :=
  let ready := mergeReady c.recvReadyQueue.buffers buffers
  if c.recvReadyQueue.onNotifying then
    { c with recvReadyQueue := { c.recvReadyQueue with buffers := ready } }
  else
    let (notified, rest, streamPos) := notifyLoop c.recvReadyQueue.streamPos ready
    { c with
      recvReadyQueue := { buffers := rest, streamPos := streamPos, onNotifying := false }
      history := c.history ++ notified.map recvRecord }

/-- `PackageConnectionNotifySendCompleteBuffers`. -/
def notifySendCompleteBuffers (buffers : List SendQueueSendBuffer) : PackageConnection :=
  { c with history := c.history ++ buffers.map fun b => .sendComplete b b.len }

/-! ## Closing -/

/-- `PackageConnectionMaybeCloseFinish`. -/
def maybeCloseFinish : PackageConnection :=
  if c.closeSubState = .closed ∧ (c.closeRecv ∨ c.closeSend) ∧ c.state = .closing then
    let (recvBuffers, recvQueue) := c.recvQueue.popAllBuffers
    let (sendBuffers, sendQueue) := c.sendQueue.popAllBuffers
    { c with
      state := .close
      closeTimer := .idle
      rtoTimer := false
      recvTimer := false
      recvQueue := recvQueue
      sendQueue := sendQueue
      history := c.history ++ (recvBuffers.map fun b => .recv [] b.userData) ++
        sendBuffers.map fun b => .sendComplete b b.len }
  else c

/-- `PackageConnectionClose`. -/
def close (fuel now : Nat) (c : PackageConnection) : Option PackageConnection :=
  if c.state = .establish then
    let (endStreamPos, acked) := c.sendQueue.addCloseOperation
    let c := { c with state := .closing, selfCloseStreamPos := endStreamPos }
    if acked then c.trySendPackage env fuel now else some c
  else some c

/-- `PackageConnectionReset`. -/
def reset (c : PackageConnection) : PackageConnection :=
  if c.state = .establish then
    ({ c with
      state := .closing
      closeSubState := .closed
      closeRecv := true
      closeSend := true
      history := c.history ++ [Record.reset] }).maybeCloseFinish
  else c

/-- `PackageConnectionUpdateCloseSubState` for a received `FIN`. -/
def onRecvFin (fuel now : Nat) (c : PackageConnection) : Option PackageConnection :=
  match c.closeSubState with
  | .none =>
    let c := { c with closeSubState := .waitclose }
    if env.config.halfOpen then some c else c.close env fuel now
  | .fin1 => some { c with closeSubState := .closing }
  | .fin2 => some { c with closeSubState := .timewait, closeTimer := .timewait }
  | _ => some c

/-- `PackageConnectionUpdateCloseSubState` for a received `FINACK`. -/
def onRecvFinAck : PackageConnection :=
  match c.closeSubState with
  | .fin1 => { c with closeSubState := .fin2, closeSend := true, closeTimer := .idle }
  | .closing => { c with closeSubState := .timewait, closeSend := true, closeTimer := .timewait }
  | .lastack =>
    ({ c with closeSubState := .closed, closeSend := true, closeTimer := .idle }).maybeCloseFinish
  | _ => c

/-- `PackageConnectionUpdateCloseSubState` for a received package. -/
def updateCloseSubStateOnRecv (fuel now : Nat) (cmdflags : CmdFlags)
    (c : PackageConnection) : Option PackageConnection := do
  let c ← (if cmdflags.hasFlag SessionDataFlag.FIN then c.onRecvFin env fuel now else some c)
  some (if cmdflags.hasFlag SessionDataFlag.FINACK then c.onRecvFinAck else c)

/-! ## Receiving packages -/

/-- `PackageConnectionEstimateRtt`. -/
def estimateRtt (now : Nat) (package : Bdt_SessionDataPackage) (c : PackageConnection) :
    PackageConnection :=
  let (rttEst, rto) := c.rttEst.estimateRtt now package
  { c with rttEst := rttEst, rto := rto.getD c.rto }

/-- The part of `PackageConnectionPushPackage` that deals with the ack and the sack. -/
def pushAck (fuel now : Nat) (package : Bdt_SessionDataPackage)
    (c : PackageConnection) : Option PackageConnection :=
  let (sendQueue, nAcked) := c.sendQueue.confirmRange package.ackStreamPos package.sackArray
  let c := { c with sendQueue := sendQueue }
  if nAcked = 0 then some c
  else do
    let cc ← c.cc.onAck env now package nAcked
    let c ← ({ c with cc := cc }).trySendPackage env fuel now
    let (buffers, sendQueue) := c.sendQueue.popCompleteBuffers
    some (({ c with sendQueue := sendQueue }).notifySendCompleteBuffers buffers)

/-- The kind of a received package: `FIN` counts as in order, a payload decides otherwise. -/
def writePackage (package : Bdt_SessionDataPackage) (c : PackageConnection) :
    RecvPackageType × PackageConnection :=
  let recvType : RecvPackageType := if package.hasFlag SessionDataFlag.FIN then .inOrder else .none
  let c :=
    if package.hasFlag SessionDataFlag.FIN then
      { c with remoteCloseStreamPos := package.streamPos + package.payloadLength }
    else c
  if package.payloadLength ≠ 0 then
    let (recvType, recvQueue) := c.recvQueue.writeData package.streamPos package.payloadBytes
    (recvType, { c with recvQueue := recvQueue })
  else (recvType, c)

/-- Hand the buffers that are complete to their callbacks. -/
def deliver (force : Bool) (c : PackageConnection) : PackageConnection :=
  let (buffers, recvQueue) := c.recvQueue.popCompleteBuffers force
  let c := { c with recvQueue := recvQueue }
  if buffers = [] then c else c.notifyRecvReadyBuffers buffers

/-- The part of `PackageConnectionPushPackage` that deals with `FIN` and the payload. -/
def pushData (fuel now : Nat) (package : Bdt_SessionDataPackage)
    (c : PackageConnection) : Option PackageConnection :=
  let (recvType, c) := c.writePackage package
  if recvType = .none then some c
  else do
    let (ackDue, cc) := c.cc.onData (some package) recvType
    let c := { c with cc := cc }
    let c ← (if ackDue then c.trySendPackage env fuel now else some c)
    if recvType = .inOrder ∨ recvType = .lostOrder ∨ recvType = .part then
      some (({ c with recvTimer := true }).deliver (package.payloadLength < env.config.mtu))
    else some c

/-- The head of `PackageConnectionPushPackage` for a package without `SYN`. -/
def beginPush (now : Nat) (package : Bdt_SessionDataPackage) (c : PackageConnection) :
    PackageConnection :=
  ({ c with
    lastRecvAckTime := now, history := c.history ++ [Record.receive package] }).estimateRtt now package

/-- `PackageConnectionPushPackage`. -/
def pushPackage (fuel now : Nat) (package : Bdt_SessionDataPackage)
    (c : PackageConnection) : Option PackageConnection :=
  if package.hasFlag SessionDataFlag.SYN then
    if package.hasFlag SessionDataFlag.ACK then c.sendAckAck env fuel now else some c
  else do
    let c ← (c.beginPush now package).updateCloseSubStateOnRecv env fuel now package.cmdflags
    let c ← c.pushAck env fuel now package
    c.pushData env fuel now package

/-! ## The user and the timers -/

/-- `PackageConnectionSend`, which returns before the send drive when the queue says that bytes were
waiting. -/
def send (fuel now : Nat) (data : List UInt8) (userData : Nat)
    (c : PackageConnection) : Option PackageConnection :=
  if c.state = .establish then
    match c.sendQueue.addBuffer data userData with
    | none => some c
    | some sendQueue =>
      let accepted :=
        { c with sendQueue := sendQueue, history := c.history ++ [Record.accept data userData] }
      if c.sendQueue.addsPending then some accepted else accepted.trySendPackage env fuel now
  else some c

/-- `PackageConnectionRecv`. -/
def recv (address : Nat) (data : List UInt8) (userData : Nat) (c : PackageConnection) :
    PackageConnection :=
  if c.state = .close then c
  else { c with recvQueue := (c.recvQueue.addBuffer address data userData).getD c.recvQueue }

/-- `PackageConnectionRtoTimerCallback`. -/
def rtoTimerCallback (fuel now : Nat) (c : PackageConnection) : Option PackageConnection :=
  if c.state = .close then some { c with rtoTimer := false }
  else if c.sendQueue.getFilght > 0 ∨ c.sendQueue.getLostSize > 0 ∨ c.sendQueue.getUnsendSize > 0 then
    let (sendQueue, nCount) := c.sendQueue.markRangeTimeout false c.rto now
    let c := { c with sendQueue := sendQueue }
    if nCount > 0 then do
      let c ← c.trySendPackage env fuel now
      if wordSub 64 now c.lastLostStateTime > 200000 then
        some { c with cc := c.cc.onChangeState .lost, lastLostStateTime := now, rtoTimer := true }
      else some { c with rtoTimer := true }
    else some { c with rtoTimer := true }
  else some { c with lastRecvAckTime := 0, rtoTimer := true }

/-- `PackageConnectionRecvTimerCallback`. -/
def recvTimerCallback : PackageConnection :=
  let c := { c with recvTimer := false }
  if c.state = .close then c else c.deliver true

/-- `PackageConnectionFinTimerCallback`. -/
def finTimerCallback (fuel now : Nat) (c : PackageConnection) : Option PackageConnection :=
  let c := { c with closeTimer := .idle }
  if c.closeSubState = .fin2 ∨ c.closeSubState = .timewait ∨ c.closeSubState = .closed then some c
  else do
    let c ← c.trySendPackage env fuel now
    some { c with closeTimer := .fin }

/-- `PackageConnectionTimewaitTimerCallback`. -/
def timewaitTimerCallback : PackageConnection :=
  ({ c with closeTimer := .idle, closeRecv := true, closeSubState := .closed }).maybeCloseFinish

end PackageConnection

/-- What can happen to a connection. -/
inductive ConnectionEvent where
  | send (data : List UInt8) (userData : Nat)
  | recv (address : Nat) (data : List UInt8) (userData : Nat)
  | close
  | reset
  | push (package : Bdt_SessionDataPackage)
  | rtoTimer
  | recvTimer
  | finTimer
  | timewaitTimer
  deriving DecidableEq, Repr

/-- The handler of an event. A timer only fires when it is armed. -/
def PackageConnection.handle (env : PackageEnv) (fuel now : Nat) (c : PackageConnection) :
    ConnectionEvent → Option PackageConnection
  | .send data userData => c.send env fuel now data userData
  | .recv address data userData => some (c.recv address data userData)
  | .close => c.close env fuel now
  | .reset => some c.reset
  | .push package => c.pushPackage env fuel now package
  | .rtoTimer => if c.rtoTimer then c.rtoTimerCallback env fuel now else none
  | .recvTimer => if c.recvTimer then some c.recvTimerCallback else none
  | .finTimer => if c.closeTimer = .fin then c.finTimerCallback env fuel now else none
  | .timewaitTimer => if c.closeTimer = .timewait then some c.timewaitTimerCallback else none

end Bdt
