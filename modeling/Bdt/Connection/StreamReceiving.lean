import Bdt.Base.Transition

/-!
# The receiving side of a stream connection

A model of the part of `StreamConnection.imp.inl` that receives: data that arrives goes into the
buffers of the requests that wait, or is kept until the next request. A request that is done waits in
`completeRecvRequests` for its callback.

The sections under `recvQueueLock` are events, and so are the steps between them, which may run in
other threads: the write of `isCompleteRecvNotifyOnly`, the atomic swap of `isRecvNotifying`, each
callback, and the calls that pause and resume the socket. The fields that end in `Due` count the calls
that are still to come. `history` is not in the source.
-/

namespace Bdt

open Base

/-- `StreamConnectionRecvBuffer`. -/
structure StreamConnectionRecvBuffer where
  data : List UInt8
  pos : Nat
  recvTime : Int
  pos_le : pos ≤ data.length
  deriving DecidableEq, Repr

namespace StreamConnectionRecvBuffer

/-- A buffer for bytes that have just arrived. -/
def create (now : Int) (bytes : List UInt8) : StreamConnectionRecvBuffer where
  data := bytes
  pos := 0
  recvTime := now
  pos_le := Nat.zero_le _

def size (recvBuffer : StreamConnectionRecvBuffer) : Nat :=
  recvBuffer.data.length

/-- The bytes from `data + pos` on. -/
def rest (recvBuffer : StreamConnectionRecvBuffer) : List UInt8 :=
  recvBuffer.data.drop recvBuffer.pos

/-- `recvBuffer->pos += copySize`. -/
def advance (recvBuffer : StreamConnectionRecvBuffer) (copySize : Nat)
    (h : copySize ≤ recvBuffer.size - recvBuffer.pos) : StreamConnectionRecvBuffer where
  data := recvBuffer.data
  pos := recvBuffer.pos + copySize
  recvTime := recvBuffer.recvTime
  pos_le := by
    have hpos := recvBuffer.pos_le
    unfold size at h
    omega

end StreamConnectionRecvBuffer

/-- `StreamConnectionRecvRequest`; `data` are the first `pos` bytes of its buffer. -/
structure StreamConnectionRecvRequest where
  userData : Nat
  size : Nat
  data : List UInt8
  pos_le : data.length ≤ size
  deriving DecidableEq, Repr

namespace StreamConnectionRecvRequest

def pos (req : StreamConnectionRecvRequest) : Nat :=
  req.data.length

/-- Copy bytes behind those that the buffer has. -/
def copy (req : StreamConnectionRecvRequest) (bytes : List UInt8)
    (h : bytes.length ≤ req.size - req.pos) : StreamConnectionRecvRequest where
  userData := req.userData
  size := req.size
  data := req.data ++ bytes
  pos_le := by
    have hpos := req.pos_le
    rw [List.length_append]
    unfold pos at h
    omega

end StreamConnectionRecvRequest

/-- An exchange of the receiving side with its environment. -/
inductive StreamRecvEntry where
  /-- `StreamConnectionRecv` took a buffer of this size. -/
  | request (userData size : Nat)
  /-- The tcp interface handed over bytes; none at the end of the stream. -/
  | data (bytes : List UInt8)
  /-- A recv callback, with the bytes that it reports. -/
  | callback (userData : Nat) (bytes : List UInt8)
  | pause
  | resume
  /-- `StreamConnectionCancelPendingRecv`. -/
  | cancel
  deriving DecidableEq, Repr

/-- The members of `StreamConnection` that the receiving side uses. -/
structure StreamReceiver where
  isRecvNotifying : Bool := false
  isCompleteRecvNotifyOnly : Bool := true
  recvClosed : Bool := false
  recvBuffersQueue : List StreamConnectionRecvBuffer := []
  recvRequestQueue : List StreamConnectionRecvRequest := []
  completeRecvRequests : List StreamConnectionRecvRequest := []
  /-- The requests whose callbacks the running `StreamConnectionNotifyCompleteRecvRequest` makes. -/
  toCallbackQueue : List StreamConnectionRecvRequest := []
  dataNotifyTimer : Bool := false
  /-- Calls that will write `isCompleteRecvNotifyOnly`. -/
  notifyAllDue : Nat := 0
  /-- Calls that will swap `isRecvNotifying`. -/
  notifyDue : Nat := 0
  pauseDue : Nat := 0
  resumeDue : Nat := 0
  history : List StreamRecvEntry := []
  deriving DecidableEq, Repr

namespace StreamReceiver

/-! ## `StreamConnectionRecv` -/

/-- A conversion to `int32_t`. -/
def int32 (value : Int) : Int :=
  value.bmod 4294967296

/-- The time that is left for a request whose first byte came at `recvTime`. -/
def recvLeftTime (recvTimeout : Nat) (now recvTime : Int) : Int :=
  let leftTime := int32 (now - recvTime - recvTimeout)
  if leftTime > recvTimeout then int32 recvTimeout else leftTime

/-- The loop of `StreamConnectionRecv` over the buffers: the bytes copied, the time that is left, and
the buffers left. -/
def drainLoop (recvTimeout len : Nat) (now : Int) : List UInt8 → Int → Int →
    List StreamConnectionRecvBuffer → List UInt8 × Int × List StreamConnectionRecvBuffer
  | data, _, leftTime, [] => (data, leftTime, [])
  | data, firstRecvTime, leftTime, recvBuffer :: buffers =>
    if data.length < len then
      let copySize := min (len - data.length) (recvBuffer.size - recvBuffer.pos)
      let data := data ++ recvBuffer.rest.take copySize
      let left := recvBuffer.advance copySize (Nat.min_le_right _ _)
      let (firstRecvTime, leftTime) :=
        if firstRecvTime = 0 then
          (recvBuffer.recvTime, recvLeftTime recvTimeout now recvBuffer.recvTime)
        else (firstRecvTime, leftTime)
      if left.pos = left.size then drainLoop recvTimeout len now data firstRecvTime leftTime buffers
      else (data, leftTime, left :: buffers)
    else (data, leftTime, recvBuffer :: buffers)

/-- `StreamConnectionRecv`, of a buffer of `len` bytes. -/
def recv (recvTimeout : Nat) (now : Int) (userData len : Nat) (c : StreamReceiver) :
    Option StreamReceiver :=
  if len = 0 then none
  else
    let (data, leftTime, buffers) := drainLoop recvTimeout len now [] 0 0 c.recvBuffersQueue
    if hpos : data.length ≤ len then
      let req : StreamConnectionRecvRequest :=
        { userData := userData, size := len, data := data, pos_le := hpos }
      let history := c.history ++ [.request userData len]
      if data.length = len ∨ c.recvClosed = true ∨ 0 < data.length ∧ leftTime ≤ 2000 then
        if 0 < data.length ∨ c.recvClosed = true then
          some { c with
            history
            recvBuffersQueue := buffers
            completeRecvRequests := c.completeRecvRequests ++ [req]
            notifyDue := c.notifyDue + 1 }
        else none
      else
        some { c with
          history
          recvBuffersQueue := buffers
          recvRequestQueue := c.recvRequestQueue ++ [req]
          resumeDue := if c.recvRequestQueue = [] then c.resumeDue + 1 else c.resumeDue
          dataNotifyTimer := c.dataNotifyTimer || 0 < data.length }
    else none

/-! ## `StreamConnectionOnTcpData` -/

/-- What the loop of `StreamConnectionOnTcpData` over the requests does. -/
structure Fill where
  completed : List StreamConnectionRecvRequest
  waiting : List StreamConnectionRecvRequest
  data : List UInt8
  cancelDelayNotify : Bool
  delayNotify : Bool

theorem copySize_le (req : StreamConnectionRecvRequest) (data : List UInt8) :
    (data.take (min data.length (req.size - req.pos))).length ≤ req.size - req.pos := by
  rw [List.length_take]
  omega

/-- The loop of `StreamConnectionOnTcpData` over the requests. -/
def fillLoop : List UInt8 → List StreamConnectionRecvRequest → Fill
  | data, [] => ⟨[], [], data, false, false⟩
  | data, req :: waiting =>
    if data = [] then ⟨[], req :: waiting, data, false, false⟩
    else
      let copySize := min data.length (req.size - req.pos)
      let copied := req.copy (data.take copySize) (copySize_le req data)
      let data := data.drop copySize
      if copied.pos = copied.size then
        let fill := fillLoop data waiting
        { fill with completed := copied :: fill.completed, cancelDelayNotify := true }
      else ⟨[], copied :: waiting, data, false, true⟩

/-- The requests that wait are done. -/
def completeAll (c : StreamReceiver) : StreamReceiver :=
  { c with
    recvClosed := true
    recvRequestQueue := []
    completeRecvRequests := c.completeRecvRequests ++ c.recvRequestQueue
    notifyAllDue := c.notifyAllDue + 1 }

/-- `StreamConnectionOnTcpData`. -/
def onTcpData (now : Int) (data : List UInt8) (c : StreamReceiver) : Option StreamReceiver :=
  let c := { c with history := c.history ++ [StreamRecvEntry.data data] }
  if data = [] then some c.completeAll
  else if c.recvClosed then some c
  else if c.recvRequestQueue ≠ [] ∧ c.recvBuffersQueue ≠ [] then none
  else
    let fill := fillLoop data c.recvRequestQueue
    if fill.data ≠ [] ∧ fill.waiting ≠ [] then none
    else
      some { c with
        recvRequestQueue := fill.waiting
        completeRecvRequests := c.completeRecvRequests ++ fill.completed
        recvBuffersQueue := if fill.data = [] then c.recvBuffersQueue
          else c.recvBuffersQueue ++ [.create now fill.data]
        pauseDue := if fill.data ≠ [] ∧ c.recvBuffersQueue = [] then c.pauseDue + 1 else c.pauseDue
        notifyDue := c.notifyDue + 1
        -- a timer that is stopped here is started again at once
        dataNotifyTimer := fill.delayNotify ||
          (c.dataNotifyTimer && !(fill.cancelDelayNotify && fill.delayNotify)) }

/-- The calls behind the lock, when the first buffer was queued. -/
def pauseSocket (c : StreamReceiver) : StreamReceiver :=
  { c with
    pauseDue := c.pauseDue - 1
    history := c.history ++ [StreamRecvEntry.pause] ++
      if c.recvRequestQueue = [] then [] else [StreamRecvEntry.resume] }

/-! ## `StreamConnectionNotifyCompleteRecvRequest` -/

/-- The swap of `isRecvNotifying`: the call returns when another one makes the callbacks. -/
def notify (c : StreamReceiver) : StreamReceiver :=
  { c with
    notifyDue := c.notifyDue - 1
    isRecvNotifying := true }

/-- The first request that waits, when it has bytes and `isCompleteRecvNotifyOnly` is not set; and the
requests behind it. -/
def takePartial (c : StreamReceiver) :
    List StreamConnectionRecvRequest × List StreamConnectionRecvRequest :=
  if c.isCompleteRecvNotifyOnly then ([], c.recvRequestQueue)
  else
    match c.recvRequestQueue with
    | req :: waiting => if 0 < req.pos then ([req], waiting) else ([], req :: waiting)
    | [] => ([], [])

/-- The section under the lock. Without callbacks to make the call ends. -/
def takeCompleted (c : StreamReceiver) : StreamReceiver :=
  let (part, waiting) := c.takePartial
  let toCallback := c.completeRecvRequests ++ part
  { c with
    completeRecvRequests := []
    isCompleteRecvNotifyOnly := true
    recvRequestQueue := waiting
    toCallbackQueue := toCallback
    isRecvNotifying := if toCallback = [] then false else c.isRecvNotifying }

/-- `StreamConnectionRecvRequestDone` of the first request. -/
def recvRequestDone (c : StreamReceiver) : Option StreamReceiver :=
  match c.toCallbackQueue with
  | req :: toCallback =>
    some { c with
      toCallbackQueue := toCallback
      history := c.history ++ [StreamRecvEntry.callback req.userData req.data] }
  | [] => none

/-- `StreamConnectionCancelPendingRecv`. -/
def cancelPendingRecv (c : StreamReceiver) : StreamReceiver :=
  { c.completeAll with
    recvBuffersQueue := []
    history := c.history ++ [StreamRecvEntry.cancel] }

end StreamReceiver

/-- What can happen to the receiving side of a stream connection. -/
inductive StreamRecvEvent where
  | recv (userData len : Nat)
  | tcpData (bytes : List UInt8)
  /-- A call of `StreamConnectionNotifyCompleteRecvRequest` writes `isCompleteRecvNotifyOnly`. -/
  | notifyAll
  /-- A call swaps `isRecvNotifying`. -/
  | notify
  /-- The running call takes the requests that are done. -/
  | takeCompleted
  | callback
  | pause
  | resume
  | dataNotifyTimer
  /-- `StreamConnectionReset`, by its user or after an error of the tcp interface. -/
  | cancelPendingRecv
  deriving DecidableEq, Repr

namespace StreamReceiver

/-- An event can happen: a call when it is due, the steps of the running call in their order, and
`StreamConnectionRecv` with a buffer that is not empty. -/
def enabled (c : StreamReceiver) : StreamRecvEvent → Bool
  | .recv _ len => 0 < len
  | .notifyAll => 0 < c.notifyAllDue
  | .notify => 0 < c.notifyDue
  | .takeCompleted => c.isRecvNotifying ∧ c.toCallbackQueue = []
  | .callback => c.toCallbackQueue ≠ []
  | .pause => 0 < c.pauseDue
  | .resume => 0 < c.resumeDue
  | .dataNotifyTimer => c.dataNotifyTimer
  | _ => true

/-- The handler of an event; `none` when an assertion fails. -/
def handle (recvTimeout : Nat) (now : Int) (c : StreamReceiver) :
    StreamRecvEvent → Option StreamReceiver
  | .recv userData len => c.recv recvTimeout now userData len
  | .tcpData bytes => c.onTcpData now bytes
  | .notifyAll =>
    some { c with
      isCompleteRecvNotifyOnly := false
      notifyAllDue := c.notifyAllDue - 1
      notifyDue := c.notifyDue + 1 }
  | .notify => some c.notify
  | .takeCompleted => some c.takeCompleted
  | .callback => c.recvRequestDone
  | .pause => some c.pauseSocket
  | .resume =>
    some { c with
      resumeDue := c.resumeDue - 1
      history := c.history ++ [StreamRecvEntry.resume] }
  | .dataNotifyTimer =>
    some { c with
      dataNotifyTimer := false
      notifyAllDue := c.notifyAllDue + 1 }
  | .cancelPendingRecv => some c.cancelPendingRecv

/-- A run takes a step. -/
def advance (recvTimeout : Nat) (c : StreamReceiver) (event : Int × StreamRecvEvent) :
    Option StreamReceiver :=
  if c.enabled event.2 then c.handle recvTimeout event.1 event.2 else none

/-- The states that the receiving side reaches between these events. -/
def Reachable (recvTimeout : Nat) : StreamReceiver → Prop :=
  Reach (fun c => c = {}) fun c event d => c.advance recvTimeout event = some d

end StreamReceiver

end Bdt
