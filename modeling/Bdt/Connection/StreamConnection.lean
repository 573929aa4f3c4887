import Bdt.Base.Transition
import Bdt.Base.Word
import Bdt.Global.CryptoToolKit

/-!
# The sending side of a stream connection

A model of the part of `StreamConnection.imp.inl` that sends: requests are queued, put together into
records, encrypted in the record buffer, and handed to the tcp interface, which may take a part of a
record only.

The sections under `pendingSendLock` and what they hand to the record buffer run one after the other.
The code then calls back to its user, who may call `StreamConnectionSend` again, and only after that
calls `StreamConnectionSendRecord`; so this call is an event of its own, which `sendRecordDue` counts.
`sendingCallCount` is zero whenever one of these calls begins. `history` is not in the source: it
records what was taken from and handed to the environment.
-/

namespace Bdt

open Base

def STREAM_CONNECTION_ENCRYPT_MAX_HEADER_SIZE : Nat := 32
def STREAM_CONNECTION_ENCRYPT_MAX_PADDING_SIZE : Nat := 32

/-- The fields of `BdtStreamConnectionConfig` that the sending side uses. -/
structure BdtStreamConnectionConfig where
  minRecordSize : Nat
  maxRecordSize : Nat
  maxNagleDelay : Nat
  min_le_max : minRecordSize ≤ maxRecordSize

/-- The configuration that `Stack.c` gives every connection. -/
def streamConConfig : BdtStreamConnectionConfig where
  minRecordSize := 1
  maxRecordSize := 2048
  maxNagleDelay := 0
  min_le_max := by decide

/-- What a stream connection is created with: its configuration, and the cipher and the key of its
tcp interface. -/
structure StreamEnv where
  config : BdtStreamConnectionConfig
  aes : Aes
  aesKey : List UInt8

/-- `StreamConnectionSendRequestListItem`. The callback is null for a part of a request. -/
structure StreamConnectionSendRequestListItem where
  buffer : List UInt8
  callback : Option Nat
  offset : Nat := 0
  postTime : Int := 0
  deriving DecidableEq, Repr

namespace StreamConnectionSendRequestListItem

/-- `request.length`. -/
def length (item : StreamConnectionSendRequestListItem) : Nat :=
  item.buffer.length

/-- The bytes from `request.buffer + offset` on. -/
def rest (item : StreamConnectionSendRequestListItem) : List UInt8 :=
  item.buffer.drop item.offset

end StreamConnectionSendRequestListItem

/-- An exchange of a stream connection with its environment. -/
inductive StreamEntry where
  /-- `StreamConnectionSend` took a buffer. -/
  | accept (buffer : List UInt8)
  /-- A record with this plaintext was put into the record buffer. -/
  | record (plain : List UInt8)
  /-- A send callback, with its result and the length that it reports. -/
  | callback (success : Bool) (userData length : Nat)
  /-- The socket took bytes. -/
  | wire (bytes : List UInt8)
  /-- `Bdt_TcpInterfaceClose`. -/
  | closeInterface
  deriving DecidableEq, Repr

/-- The members of `StreamConnection` that the sending side uses. -/
structure StreamConnection where
  recordBuffer : List UInt8 := []
  recordOffset : Nat := 0
  pendingRecordSize : Nat := 0
  nagleTimer : Bool := false
  sendClosed : Bool := false
  recordSize : Nat := 0
  sendRequestSize : Nat := 0
  sendRequests : List StreamConnectionSendRequestListItem := []
  /-- Calls of `StreamConnectionSendRecord` that are still to come. -/
  sendRecordDue : Nat := 0
  /-- Calls of `StreamConnectionOnSyncSent` that were posted. -/
  immediates : Nat := 0
  /-- The tcp interface is in `BDT_TCP_INTERFACE_STATE_CLOSED`. -/
  interfaceClosed : Bool := false
  history : List StreamEntry := []
  deriving DecidableEq, Repr

namespace StreamConnection

/-! ## Records -/

/-- `recordBufferLength`. -/
def recordBufferLength (env : StreamEnv) : Nat :=
  STREAM_CONNECTION_ENCRYPT_MAX_HEADER_SIZE + env.config.maxRecordSize +
    STREAM_CONNECTION_ENCRYPT_MAX_PADDING_SIZE

/-- `Bdt_TcpInterfaceBoxCryptoData`: the header, which is the length of the box in 16 bits, and the
box. -/
def boxCryptoData (env : StreamEnv) (plain : List UInt8) : Option (List UInt8 × List UInt8) :=
  match Bdt_AesEncryptDataWithPadding env.aes env.aesKey plain (recordBufferLength env) with
  | none => none
  | some encrypted =>
    let boxlen := word 16 encrypted.length
    some ([UInt8.ofNat (boxlen % 256), UInt8.ofNat (boxlen / 256)], encrypted.take boxlen)

/-- Encrypt a record in the record buffer. -/
def encodeRecord (env : StreamEnv) (plain : List UInt8) (c : StreamConnection) :
    Option StreamConnection :=
  match boxCryptoData env plain with
  | none => none
  | some (header, box) =>
    let recordOffset := STREAM_CONNECTION_ENCRYPT_MAX_HEADER_SIZE - header.length
    some { c with
      recordBuffer := List.replicate recordOffset 0 ++ header ++ box
      recordOffset := recordOffset
      pendingRecordSize := box.length + header.length
      history := c.history ++ [.record plain] }

/-- The callbacks of the requests that a record has taken up. -/
def sentCallbacks (items : List StreamConnectionSendRequestListItem) : List StreamEntry :=
  items.filterMap fun item => item.callback.map fun userData => .callback true userData item.length

/-- A plaintext that was copied to the record buffer is encrypted, and the callbacks are made. -/
def putRecord (env : StreamEnv) (plain : List UInt8) (callbacks : List StreamEntry)
    (c : StreamConnection) : Option StreamConnection :=
  match c.encodeRecord env plain with
  | none => none
  | some c =>
    some { c with
      history := c.history ++ callbacks
      sendRecordDue := c.sendRecordDue + 1 }

/-- The copy of `StreamConnectionCheckPendingSend`: all the requests taken, which are as long as the
record. -/
def putRequests (env : StreamEnv) (toRecordSize : Nat)
    (toRecord : List StreamConnectionSendRequestListItem) (c : StreamConnection) :
    Option StreamConnection :=
  let plain := toRecord.flatMap (·.rest)
  if plain.length = toRecordSize then c.putRecord env plain (sentCallbacks toRecord) else none

/-- The copy of `StreamConnectionSend`: the requests queued, which are shorter than the record, and
then bytes of the new buffer. -/
def putWithBuffer (env : StreamEnv) (toRecordSize : Nat)
    (toRecord : List StreamConnectionSendRequestListItem) (buffer : List UInt8)
    (callbacks : List StreamEntry) (c : StreamConnection) : Option StreamConnection :=
  let plain := toRecord.flatMap (·.rest)
  if plain.length < toRecordSize ∧ toRecordSize - plain.length ≤ buffer.length then
    c.putRecord env (plain ++ buffer.take (toRecordSize - plain.length))
      (sentCallbacks toRecord ++ callbacks)
  else none

/-! ## `StreamConnectionSendRecord` -/

/-- `Bdt_TcpInterfaceSend`, when the socket takes at most `sent` bytes: the bytes taken, by which the
caller goes on. An interface that is closed takes none, and leaves the caller's variable as it
was, which is `sent` then. -/
def tcpInterfaceSend (sent : Nat) (c : StreamConnection) : Nat × List StreamEntry :=
  if c.interfaceClosed then (sent, [])
  else
    let bytes := ((c.recordBuffer.drop c.recordOffset).take c.pendingRecordSize).take sent
    (bytes.length, [.wire bytes])

/-- The first part of `StreamConnectionSendRecord`. -/
def sendPending (sent : Nat) (c : StreamConnection) : StreamConnection :=
  if c.pendingRecordSize = 0 then c
  else
    let (taken, entries) := c.tcpInterfaceSend sent
    { c with
      recordOffset := c.recordOffset + taken
      pendingRecordSize := wordSub 64 c.pendingRecordSize taken
      history := c.history ++ entries }

/-- `StreamConnectionSendRecord`. -/
def sendRecord (sent : Nat) (c : StreamConnection) : StreamConnection :=
  let c := c.sendPending sent
  if c.pendingRecordSize = 0 then
    let c := { c with recordSize := 0 }
    if c.sendRequestSize = 0 ∧ c.sendClosed then
      { c with history := c.history ++ [.closeInterface] }
    else { c with immediates := c.immediates + 1 }
  else c

/-! ## `StreamConnectionCheckPendingSend` -/

/-- The loop of `StreamConnectionCheckPendingSend` that takes a full record off the queue: the
requests taken, the last of which may be a part, and the requests left. -/
def takeLoop (toRecordSize : Nat) : Nat → List StreamConnectionSendRequestListItem →
    List StreamConnectionSendRequestListItem × List StreamConnectionSendRequestListItem
  | _, [] => ([], [])
  | recordSize, item :: rest =>
    if recordSize + item.length - item.offset > toRecordSize then
      let offset := item.offset + (toRecordSize - recordSize)
      ([{ buffer := item.buffer.take offset, callback := none, offset := item.offset }],
        { item with offset := offset } :: rest)
    else
      let (toRecord, rest) := takeLoop toRecordSize (recordSize + (item.length - item.offset)) rest
      (item :: toRecord, rest)

/-- The delay until the requests are sent though they are few: none when it has passed. -/
def nagleDelay (env : StreamEnv) (now postTime : Int) : Int :=
  let delay := (Int.tdiv (env.config.maxNagleDelay * 1000) 2 - (now - postTime)).tdiv 1000
  if delay ≤ 0 ∨ now < postTime then 0 else delay

/-- The section of `StreamConnectionCheckPendingSend` under the lock, when there is no record: the
size of the record, its requests, the requests left, and the delay. -/
def planRecord (env : StreamEnv) (now : Int) (c : StreamConnection) :
    Nat × List StreamConnectionSendRequestListItem ×
      List StreamConnectionSendRequestListItem × Int :=
  if c.sendRequestSize ≥ env.config.minRecordSize ∨ c.sendClosed then
    if c.sendRequestSize < env.config.maxRecordSize then
      (c.sendRequestSize, c.sendRequests, [], 0)
    else
      let (toRecord, rest) := takeLoop env.config.maxRecordSize 0 c.sendRequests
      (env.config.maxRecordSize, toRecord, rest, 0)
  else
    match c.sendRequests with
    | item :: _ =>
      if c.sendRequestSize > 0 then
        let delay := nagleDelay env now item.postTime
        if delay = 0 then (c.sendRequestSize, c.sendRequests, [], 0)
        else (0, [], c.sendRequests, delay)
      else (0, [], c.sendRequests, 0)
    | [] => (0, [], c.sendRequests, 0)

/-- `StreamConnectionCheckPendingSend`, up to the call of `StreamConnectionSendRecord`. -/
def checkPendingSend (env : StreamEnv) (now : Int) (c : StreamConnection) :
    Option StreamConnection :=
  if c.recordSize ≠ 0 then some c
  else
    let (toRecordSize, toRecord, rest, delay) := c.planRecord env now
    let c := { c with
      sendRequests := rest
      sendRequestSize := wordSub 64 c.sendRequestSize toRecordSize
      recordSize := toRecordSize }
    if toRecordSize ≠ 0 then
      c.putRequests env toRecordSize toRecord
    else if 0 < delay then some { c with nagleTimer := true }
    else some c

/-! ## `StreamConnectionSend` -/

/-- The request is put behind the others. -/
def pushRequest (item : StreamConnectionSendRequestListItem) (c : StreamConnection) :
    StreamConnection :=
  { c with
    sendRequests := c.sendRequests ++ [item]
    sendRequestSize := c.sendRequestSize + item.length }

/-- `StreamConnectionSend`, up to the call of `StreamConnectionSendRecord`. -/
def send (env : StreamEnv) (now : Int) (buffer : List UInt8) (userData : Nat)
    (c : StreamConnection) : Option StreamConnection :=
  if c.sendClosed then some c
  else
    let item : StreamConnectionSendRequestListItem :=
      { buffer := buffer, callback := some userData, postTime := now }
    let c := { c with history := c.history ++ [StreamEntry.accept buffer] }
    if c.recordSize ≠ 0 then some (c.pushRequest item)
    else if c.sendRequestSize < env.config.minRecordSize then
      let sendRequestSize := c.sendRequestSize + item.length
      if sendRequestSize ≥ env.config.minRecordSize then
        let toRecord := c.sendRequests
        if sendRequestSize < env.config.maxRecordSize then
          let c := { c with
            sendRequests := []
            sendRequestSize := 0
            recordSize := sendRequestSize }
          c.putWithBuffer env sendRequestSize toRecord buffer
            [StreamEntry.callback true userData item.length]
        else
          let toRecordSize := env.config.maxRecordSize
          let offset := wordSub 64 toRecordSize c.sendRequestSize
          let c := { c with
            sendRequests := [{ item with offset := offset }]
            sendRequestSize := wordSub 64 item.length offset
            recordSize := toRecordSize }
          c.putWithBuffer env toRecordSize toRecord buffer []
      else some { c.pushRequest item with nagleTimer := true }
    else some (c.pushRequest item)

/-! ## Closing -/

/-- `StreamConnectionClose`. -/
def close (c : StreamConnection) : StreamConnection :=
  if c.sendClosed then c
  else
    let c := { c with sendClosed := true }
    if c.pendingRecordSize = 0 ∧ c.sendRequestSize = 0 then
      { c with history := c.history ++ [.closeInterface] }
    else c

/-- `StreamConnectionCancelPendingSend`. -/
def cancelPendingSend (c : StreamConnection) : StreamConnection :=
  { c with
    sendClosed := true
    sendRequests := []
    sendRequestSize := 0
    recordSize := 0
    history := c.history ++ c.sendRequests.filterMap fun item =>
      item.callback.map fun userData => .callback false userData 0 }

end StreamConnection

/-- What can happen to the sending side of a stream connection. -/
inductive StreamEvent where
  | send (buffer : List UInt8) (userData : Nat)
  /-- The call of `StreamConnectionSendRecord` behind a record that was put into the buffer. -/
  | sendRecord (sent : Nat)
  /-- `StreamConnectionOnTcpDrain`. -/
  | drain (sent : Nat)
  /-- `StreamConnectionOnSyncSent`. -/
  | syncSent
  | nagleTimer
  | close
  /-- `StreamConnectionReset`, by its user or after an error of the tcp interface. -/
  | cancelPendingSend
  /-- The tcp interface is closed. -/
  | interfaceClosed
  deriving DecidableEq, Repr

namespace StreamConnection

/-- An event can happen: a posted call and a timer only once they were posted or armed. -/
def enabled (c : StreamConnection) : StreamEvent → Bool
  | .sendRecord _ => 0 < c.sendRecordDue
  | .syncSent => 0 < c.immediates
  | .nagleTimer => c.nagleTimer
  | _ => true

/-- The handler of an event; `none` when an assertion fails. -/
def handle (env : StreamEnv) (now : Int) (c : StreamConnection) :
    StreamEvent → Option StreamConnection
  | .send buffer userData => c.send env now buffer userData
  | .sendRecord sent => some ({ c with sendRecordDue := c.sendRecordDue - 1 }.sendRecord sent)
  | .drain sent => some (c.sendRecord sent)
  | .syncSent => { c with immediates := c.immediates - 1 }.checkPendingSend env now
  | .nagleTimer => { c with nagleTimer := false }.checkPendingSend env now
  | .close => some c.close
  | .cancelPendingSend => some c.cancelPendingSend
  | .interfaceClosed => some { c with interfaceClosed := true }

/-- The states that a stream connection reaches between these events. -/
def Reachable (env : StreamEnv) : StreamConnection → Prop :=
  Reach (fun c => c = {}) fun c event d =>
    c.enabled event = true ∧ ∃ now, c.handle env now event = some d

end StreamConnection

end Bdt
